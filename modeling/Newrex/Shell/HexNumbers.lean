import Newrex.Lib.Numeral
import Newrex.Heap.Release
import Newrex.Pmm.Usable
import Newrex.Shell.Storage

/-!
# Numbers in hexadecimal

The routines of `kernel/kernel.c` that print numbers in hexadecimal, the one that reads them,
and what of the shell depends on their agreement. Each printing routine takes the digits from
the least significant one on and keeps them in a buffer on the stack; `none` means that it
writes behind the end of the buffer.

* `parseHex_prefixed`: `parse_hex` reads every hexadecimal numeral, in either case, modulo
  `2 ^ 32`.
* `printHexNoPrefix_eq` and `printHexNoPrefixPadded_eq`: what is printed, in `hexDigits`.
* `printed_addresses_read_back`: printed numbers are read back.
* `printMmapEntry_region` and `printMultibootMmap_isSome`: each line of the memory map report
  shows the region of its record, and the report ends when the loop over the map does.
* `kmalloc_then_kfree`: the address that `kmalloc` prints is the one that `kfree` needs.
-/

namespace Newrex

open LittleEndian Numeral RexFS

/-! ## Reading -/

/-- The value of a character in `parse_hex`. -/
def hexVal (c : UInt8) : Option UInt32 :=
  if 48 ≤ c ∧ c ≤ 57 then some (c.toUInt32 - 48)
  else if 97 ≤ c ∧ c ≤ 102 then some (c.toUInt32 - 97 + 10)
  else if 65 ≤ c ∧ c ≤ 70 then some (c.toUInt32 - 65 + 10)
  else none

/-- The loop of `parse_hex`. It ends at the NUL, too. -/
def parseHexLoop (result : UInt32) : List UInt8 → UInt32
  | [] => result
  | c :: str =>
    match hexVal c with
    | some val => parseHexLoop ((result <<< 4) ||| val) str
    | none => result

/-- `parse_hex`. -/
def parseHex (str : List UInt8) : UInt32 :=
  if str[0]? = some 48 ∧ (str[1]? = some 120 ∨ str[1]? = some 88) then
    parseHexLoop 0 (str.drop 2)
  else parseHexLoop 0 str

/-! ## Printing -/

/-- `print_char_color(c, COLOR_YELLOW)`. -/
def yellowChar (c : UInt8) : Print := .string [c] colorYellow

/-- `buffer[0]`, `buffer[1]`, ... after the loop of `print_hex`, for a buffer with room for
`space` characters. -/
def hexBuffer : (space : Nat) → (num : UInt32) → Option (List UInt8)
  | 0, num => if num > 0 then none else some []
  | space + 1, num =>
    if num > 0 then
      (hexBuffer space (num >>> 4)).map (hexChar (num &&& 0x0F).toUInt8 :: ·)
    else some []

/-- `print_hex_no_prefix`. -/
def printHexNoPrefix (num : UInt32) : Option (List Print) :=
  if num = 0 then some [yellowChar 48]
  else (hexBuffer 9 num).map fun buffer => buffer.reverse.map yellowChar

/-- `print_hex`, which goes on like `print_hex_no_prefix`. -/
def printHex (num : UInt32) : Option (List Print) :=
  (printHexNoPrefix num).map (.literal "0x" colorYellow :: ·)

/-- The buffer of `print_hex_no_prefix_padded`, filled from its end: `buffer` is what is
there when `space` characters are missing in front of it. -/
def paddedBuffer : (space : Nat) → (num : UInt32) → (buffer : List UInt8) → List UInt8
  | 0, _, buffer => buffer
  | space + 1, num, buffer =>
    paddedBuffer space (num >>> 4) (hexChar (num &&& 0x0F).toUInt8 :: buffer)

/-- `print_hex_no_prefix_padded`. -/
def printHexNoPrefixPadded (num : UInt32) : List Print :=
  (paddedBuffer 8 num []).map yellowChar

/-! ## The memory map report -/

/-- The branches of `print_multiboot_mmap` for a base or a length. -/
def printRegionNumber (high low : UInt32) : Option (List Print) :=
  if high > 0 then (printHexNoPrefix high).map (· ++ printHexNoPrefixPadded low)
  else printHexNoPrefix low

/-- The line for a record of the memory map. -/
def printMmapEntry (mem : Nat → UInt8) (entry : Nat) : Option (List Print) := do
  let base ← printRegionNumber (.ofNat (entryBaseAddrHigh mem entry))
    (.ofNat (entryBaseAddrLow mem entry))
  let length ← printRegionNumber (.ofNat (entryLengthHigh mem entry))
    (.ofNat (entryLengthLow mem entry))
  let type :=
    if entryType mem entry = 1 then Print.literal "AVAILABLE" colorLightGreen
    else .literal "RESERVED" colorLightRed
  some ([.literal "Region Base: " colorWhite, .literal "0x" colorYellow] ++ base ++
    [.literal " Length: " colorWhite, .literal "0x" colorYellow] ++ length ++
    [.literal " Type: " colorWhite, type, .char 10])

/-- The list of regions in the report, behind their number. -/
def printMmapEntries (mem : Nat → UInt8) (mbi : Nat) : Option (List Print) := do
  let entries ← mbiEntries mem mbi
  let lines ← entries.mapM (printMmapEntry mem)
  some ([.literal "Memory Map Entries : " colorWhite, printedInt (.ofNat entries.length),
    .char 10] ++ lines.flatten)

/-- `print_multiboot_mmap`; `none` also means that the loop over the map does not end. -/
def printMultibootMmap (mem : Nat → UInt8) (mbi : Nat) : Option (List Print) := do
  let memory :=
    if mbiFlags mem mbi &&& 1 ≠ 0 then
      let totalKb := (mbiMemLower mem mbi + mbiMemUpper mem mbi + 1024) % 2 ^ 32
      [.literal "Total Memory (GRUB): " colorWhite, printedInt (.ofNat (totalKb / 1024)),
        .literal " MB\n" colorWhite]
    else [.literal "Warning: mem_lower/upper not valid.\n" colorLightRed]
  let map ←
    if mbiFlags mem mbi &&& 64 ≠ 0 then printMmapEntries mem mbi
    else some [.literal "Warning: mmap not valid.\n" colorLightRed]
  some (.literal "--- MULTIBOOT MEMORY MAP REPORT ---\n" colorYellow :: memory ++ map ++
    [.literal "-----------------------------------\n" colorYellow])

/-! ## The commands of the heap -/

/-- The branch of `execute_command` for `kmalloc`. -/
def kmallocCommand (h : Heap) (args : CString) : Option (Heap × List Print) := do
  let size := parseInt args.chars
  let (h, ptr) ← h.kmalloc size
  if ptr ≠ 0 then
    let address ← printHex (.ofNat ptr)
    some (h, [.literal "Heap Allocator: " colorLightCyan, printedInt size,
      .literal " bytes reserved at " colorWhite] ++ address)
  else some (h, [.literal "Error: Heap Out of Memory!" colorLightRed])

/-- The branch of `execute_command` for `kfree`. -/
def kfreeCommand (h : Heap) (args : CString) : Option (Heap × List Print) := do
  let addr := parseHex args.chars
  let h ← h.kfree addr.toNat
  let address ← printHex addr
  some (h, [.literal "Heap Allocator: Block at " colorLightCyan] ++ address ++
    [.literal " freed and coalesced." colorWhite])

/-! ## Hexadecimal numerals -/

/-- The hexadecimal digits, in either case; letters are written in upper case. -/
def hexDigits : DigitSet UInt8 where
  base := 16
  one_lt := by decide
  value c :=
    if 48 ≤ c ∧ c ≤ 57 then some (c.toNat - 48)
    else if 65 ≤ c ∧ c ≤ 70 then some (c.toNat - 55)
    else if 97 ≤ c ∧ c ≤ 102 then some (c.toNat - 87)
    else none
  value_lt c d h := by
    simp only [UInt8.le_iff_toNat_le] at h
    grind
  char d := UInt8.ofNat (if d < 10 then 48 + d else 55 + d)
  value_char := by decide +kernel

/-- The characters of a sequence of calls. -/
def emitted (calls : List Print) : List UInt8 := calls.flatMap Print.characters

theorem hexVal_eq (c : UInt8) : hexVal c = (hexDigits.value c).map UInt32.ofNat := by
  have hall : ∀ n, n < 256 →
      hexVal (UInt8.ofNat n) = (hexDigits.value (UInt8.ofNat n)).map UInt32.ofNat := by
    decide +kernel
  simpa using hall c.toNat c.toNat_lt

theorem hexChar_eq : ∀ d, d < 16 → hexChar (UInt8.ofNat d) = hexDigits.char d := by
  decide +kernel

/-- `hex_chars[num & 0x0F]`. -/
theorem hexChar_and (num : UInt32) :
    hexChar (num &&& 0x0F).toUInt8 = hexDigits.char (num.toNat % 16) := by
  have hand : (num &&& 0x0F).toUInt8 = UInt8.ofNat (num.toNat % 16) := by
    have hmod : num.toNat &&& 15 = num.toNat % 16 := Nat.and_two_pow_sub_one_eq_mod num.toNat 4
    refine UInt8.toNat.inj ?_
    rw [UInt32.toNat_toUInt8, UInt32.toNat_and, UInt8.toNat_ofNat']
    exact congrArg (· % 256) hmod
  rw [hand, hexChar_eq _ (Nat.mod_lt _ (by decide))]

theorem toNat_shiftRight_four (num : UInt32) : (num >>> 4).toNat = num.toNat / 16 := by
  simp [Nat.shiftRight_eq_div_pow]

/-! ## `parse_hex` -/

/-- A digit is below 16, so that the disjunction adds it. -/
theorem shiftLeft_or_digit (v : Nat) {d : Nat} (hd : d < 16) :
    (UInt32.ofNat v <<< 4) ||| UInt32.ofNat d = UInt32.ofNat (v * 16 + d) := by
  have hor : v * 16 + d = v <<< 4 ||| d := (shiftLeft_or (k := 4) hd).symm
  rw [hor, UInt32.ofNat_or, UInt32.ofNat_shiftLeft _ _ (by decide)]
  rfl

/-- The loop reads a text of digits up to the first character that is no digit. -/
theorem parseHexLoop_eq {text rest : List UInt8} {v n : Nat}
    (hrest : ∀ c, rest.head? = some c → hexDigits.value c = none)
    (h : hexDigits.extend v text = some n) :
    parseHexLoop (UInt32.ofNat v) (text ++ rest) = UInt32.ofNat n := by
  induction text generalizing v with
  | nil =>
    cases h
    cases rest with
    | nil => rfl
    | cons c rest => rw [List.nil_append, parseHexLoop, hexVal_eq, hrest c rfl]; rfl
  | cons c text ih =>
    rw [DigitSet.extend] at h
    obtain ⟨d, hd, h⟩ := Option.bind_eq_some_iff.mp h
    rw [List.cons_append, parseHexLoop, hexVal_eq, hd]
    have hstep := shiftLeft_or_digit v (hexDigits.value_lt c d hd)
    exact (congrArg (parseHexLoop · _) hstep).trans (ih h)

/-- A numeral with the prefix is read modulo `2 ^ 32`. -/
theorem parseHex_prefixed {text rest : List UInt8} {x : UInt8} {n : Nat}
    (hx : x = 120 ∨ x = 88) (hrest : ∀ c, rest.head? = some c → hexDigits.value c = none)
    (h : hexDigits.Denotes text n) :
    parseHex (48 :: x :: (text ++ rest)) = UInt32.ofNat n := by
  have hprefix : (48 :: x :: (text ++ rest))[0]? = some 48 ∧
      ((48 :: x :: (text ++ rest))[1]? = some 120 ∨
        (48 :: x :: (text ++ rest))[1]? = some 88) := by
    rcases hx with rfl | rfl
    · exact ⟨rfl, Or.inl rfl⟩
    · exact ⟨rfl, Or.inr rfl⟩
  rw [parseHex, if_pos hprefix]
  exact parseHexLoop_eq hrest h.2

/-! ## The printing routines -/

theorem emitted_yellow (text : List UInt8) : emitted (text.map yellowChar) = text := by
  rw [emitted, List.flatMap_map]
  exact List.flatMap_singleton' text

/-- The buffer is large enough when the number has no more digits than it has room. -/
theorem hexBuffer_eq {space : Nat} {num : UInt32} (h : num.toNat < 16 ^ space) :
    hexBuffer space num = some ((Nat.digits 16 num.toNat).map hexDigits.char) := by
  induction space generalizing num with
  | zero =>
    obtain rfl : num = 0 := UInt32.toNat.inj (Nat.lt_one_iff.mp h)
    rfl
  | succ space ih =>
    rw [hexBuffer]
    split
    case isTrue hpos =>
      have hshift := toNat_shiftRight_four num
      have hlt : (num >>> 4).toNat < 16 ^ space := by
        rw [hshift]
        exact Nat.div_lt_of_lt_mul (by rwa [← Nat.pow_succ'])
      rw [ih hlt, hshift, hexChar_and, Nat.digits_def' (by decide) (UInt32.lt_iff_toNat_lt.mp hpos)]
      rfl
    case isFalse hzero =>
      obtain rfl : num = 0 := UInt32.le_zero_iff.mp (UInt32.not_lt.mp hzero)
      rfl

theorem printHexNoPrefix_eq (num : UInt32) :
    printHexNoPrefix num = some ((hexDigits.numeral num.toNat).map yellowChar) := by
  have hroom : num.toNat < 16 ^ 9 := Nat.lt_trans num.toNat_lt (by decide)
  rw [printHexNoPrefix, DigitSet.numeral, hexBuffer_eq hroom]
  split
  case isTrue hzero => rw [hzero]; rfl
  case isFalse hpos =>
    have hpos' : num.toNat ≠ 0 := fun hzero => hpos (UInt32.toNat.inj hzero)
    rw [if_neg hpos']
    rfl

theorem printHex_eq (num : UInt32) : printHex num =
    some (.literal "0x" colorYellow :: (hexDigits.numeral num.toNat).map yellowChar) := by
  rw [printHex, printHexNoPrefix_eq]
  rfl

theorem paddedBuffer_eq (space : Nat) (num : UInt32) (buffer : List UInt8) :
    paddedBuffer space num buffer = hexDigits.padded space num.toNat ++ buffer := by
  induction space generalizing num buffer with
  | zero => rfl
  | succ space ih =>
    rw [paddedBuffer, ih, toNat_shiftRight_four, hexChar_and, DigitSet.padded, DigitSet.padded,
      DigitSet.lowDigits, DigitSet.spell_cons, List.append_assoc]
    rfl

theorem printHexNoPrefixPadded_eq (num : UInt32) :
    printHexNoPrefixPadded num = (hexDigits.padded 8 num.toNat).map yellowChar := by
  rw [printHexNoPrefixPadded, paddedBuffer_eq, List.append_nil]

/-- The characters of `print_hex`, with anything but a digit behind them. -/
theorem parseHex_printHex (num : UInt32) {rest : List UInt8}
    (hrest : ∀ c, rest.head? = some c → hexDigits.value c = none) :
    ∃ calls, printHex num = some calls ∧ parseHex (emitted calls ++ rest) = num := by
  refine ⟨_, printHex_eq num, ?_⟩
  have hnumeral := hexDigits.denotes_numeral num.toNat
  have hemitted : emitted (.literal "0x" colorYellow ::
      (hexDigits.numeral num.toNat).map yellowChar) = 48 :: 120 :: hexDigits.numeral num.toNat :=
    congrArg (48 :: 120 :: ·) (emitted_yellow _)
  rw [hemitted]
  exact (parseHex_prefixed (Or.inl rfl) hrest hnumeral).trans (UInt32.ofNat_toNat)

/-- A region number has up to 64 bits. -/
theorem printRegionNumber_denotes (high low : UInt32) :
    ∃ text, printRegionNumber high low = some (text.map yellowChar) ∧
      hexDigits.Denotes text (high.toNat * 2 ^ 32 + low.toNat) := by
  rw [printRegionNumber, printHexNoPrefix_eq, printHexNoPrefix_eq, printHexNoPrefixPadded_eq]
  split
  case isTrue =>
    refine ⟨hexDigits.numeral high.toNat ++ hexDigits.padded 8 low.toNat, ?_, ?_⟩
    · rw [Option.map_some, List.map_append]
    · exact DigitSet.denotes_numeral_padded (by decide) low.toNat_lt
  case isFalse hzero =>
    obtain rfl : high = 0 := UInt32.le_zero_iff.mp (UInt32.not_lt.mp hzero)
    refine ⟨hexDigits.numeral low.toNat, rfl, ?_⟩
    have hlow := hexDigits.denotes_numeral low.toNat
    simpa using hlow

example : (printRegionNumber 1 0xF0).map emitted = some [49, 48, 48, 48, 48, 48, 48, 70, 48] := by
  decide

/-- The fields of a record are loaded from four bytes. -/
theorem printRegionNumber_load (mem : Nat → UInt8) (high low : Nat) :
    ∃ text, printRegionNumber (.ofNat (load mem 4 high)) (.ofNat (load mem 4 low)) =
        some (text.map yellowChar) ∧
      hexDigits.Denotes text (load mem 4 low + load mem 4 high * 2 ^ 32) := by
  have hword := printRegionNumber_denotes (.ofNat (load mem 4 high)) (.ofNat (load mem 4 low))
  rwa [UInt32.toNat_ofNat_of_lt' (load_lt mem 4 high),
    UInt32.toNat_ofNat_of_lt' (load_lt mem 4 low), Nat.add_comm] at hword

/-! ## Results -/

/-- Printed numbers are read back.

* `parse_hex` takes the characters that `print_hex` prints, its prefix included, for the
  number.
* The digits of a base or a length in the memory map report are those of the number of 64
  bits. -/
theorem printed_addresses_read_back (n high low : UInt32) :
    (∃ calls, printHex n = some calls ∧ parseHex (emitted calls) = n) ∧
    ∃ calls, printRegionNumber high low = some calls ∧
      hexDigits.Denotes (emitted calls) (high.toNat * 2 ^ 32 + low.toNat) := by
  constructor
  · have hend : ∀ c, ([] : List UInt8).head? = some c → hexDigits.value c = none := by simp
    obtain ⟨calls, hprint, hparse⟩ := parseHex_printHex n hend
    exact ⟨calls, hprint, by rwa [List.append_nil] at hparse⟩
  · obtain ⟨text, hprint, hdenotes⟩ := printRegionNumber_denotes high low
    exact ⟨_, hprint, by rwa [emitted_yellow]⟩

/-- A line of the report shows a base and a length, and the region between them is that of the
record. -/
theorem printMmapEntry_region (mem : Nat → UInt8) (entry : Nat) :
    ∃ base length type b n,
      printMmapEntry mem entry =
        some ([.literal "Region Base: " colorWhite, .literal "0x" colorYellow] ++
          base.map yellowChar ++
          [.literal " Length: " colorWhite, .literal "0x" colorYellow] ++
          length.map yellowChar ++ [.literal " Type: " colorWhite, type, .char 10]) ∧
      hexDigits.Denotes base b ∧ hexDigits.Denotes length n ∧
      ∀ x, InEntry mem entry x ↔ b ≤ x ∧ x < b + n := by
  obtain ⟨base, hbase, hb⟩ := printRegionNumber_load mem (entry + 8) (entry + 4)
  obtain ⟨length, hlength, hn⟩ := printRegionNumber_load mem (entry + 16) (entry + 12)
  refine ⟨base, length, if entryType mem entry = 1 then .literal "AVAILABLE" colorLightGreen
    else .literal "RESERVED" colorLightRed, _, _, ?_, hb, hn, fun x => Iff.rfl⟩
  rw [printMmapEntry, entryBaseAddrHigh, entryBaseAddrLow, entryLengthHigh, entryLengthLow,
    hbase, hlength]
  rfl

/-- The list has one line for each record, in the order of the map. -/
theorem mapM_printMmapEntry (mem : Nat → UInt8) (entries : List Nat) :
    ∃ lines, entries.mapM (printMmapEntry mem) = some lines ∧
      List.Forall₂ (fun entry line => printMmapEntry mem entry = some line) entries lines := by
  induction entries with
  | nil => exact ⟨[], rfl, List.Forall₂.nil⟩
  | cons entry entries ih =>
    obtain ⟨_, _, _, _, _, hline, _⟩ := printMmapEntry_region mem entry
    obtain ⟨lines, hlines, hall⟩ := ih
    exact ⟨_ :: lines, by rw [List.mapM_cons, hline, hlines]; rfl, List.Forall₂.cons hline hall⟩

theorem printMmapEntries_lines {mem : Nat → UInt8} {mbi : Nat} {entries : List Nat}
    (h : mbiEntries mem mbi = some entries) :
    ∃ lines, printMmapEntries mem mbi = some ([.literal "Memory Map Entries : " colorWhite,
        printedInt (.ofNat entries.length), .char 10] ++ lines.flatten) ∧
      List.Forall₂ (fun entry line => printMmapEntry mem entry = some line) entries lines := by
  obtain ⟨lines, hlines, hall⟩ := mapM_printMmapEntry mem entries
  refine ⟨lines, ?_, hall⟩
  rw [printMmapEntries, h, Option.bind_eq_bind, Option.bind_some, hlines]
  rfl

/-- The report is printed to its end when the loop over the memory map ends, whatever the
numbers in the map. -/
theorem printMultibootMmap_isSome (mem : Nat → UInt8) (mbi : Nat) :
    (printMultibootMmap mem mbi).isSome ↔
      (mbiFlags mem mbi &&& 64 ≠ 0 → (mbiEntries mem mbi).isSome) := by
  rw [printMultibootMmap]
  split
  case isTrue hmap =>
    rw [imp_iff_right hmap]
    cases hentries : mbiEntries mem mbi with
    | none => rw [printMmapEntries, hentries]; rfl
    | some entries =>
      obtain ⟨lines, hlines, _⟩ := printMmapEntries_lines hentries
      rw [hlines]
      exact iff_of_true rfl rfl
  case isFalse hmap => exact iff_of_true rfl fun h => absurd h hmap

/-- The address that `kmalloc` prints, typed behind `kfree`, frees the block: the block list is
what it was before. -/
theorem kmalloc_then_kfree {kernelHeap : KernelHeap} {s : HeapState}
    (h : (heapRuns kernelHeap).Reachable s) (args : CString) :
    kmallocCommand s.heap args =
        some (s.heap, [.literal "Error: Heap Out of Memory!" colorLightRed]) ∨
    ∃ h' address,
      kmallocCommand s.heap args =
        some (h', [.literal "Heap Allocator: " colorLightCyan, printedInt (parseInt args.chars),
          .literal " bytes reserved at " colorWhite] ++ address) ∧
      ∀ typed : CString, typed.chars = emitted address →
        ∃ h'', kfreeCommand h' typed =
            some (h'', [.literal "Heap Allocator: Block at " colorLightCyan] ++ address ++
              [.literal " freed and coalesced." colorWhite]) ∧
          h''.blockList = s.heap.blockList := by
  obtain ⟨bs, hinv⟩ := reachable_heapInv h
  rcases hinv.kmalloc_used (parseInt args.chars) with hnull | ⟨h', p, bs', hserve, hp, hinv', _⟩
  · left
    rw [kmallocCommand, hnull]
    rfl
  · right
    have hend : ∀ c, ([] : List UInt8).head? = some c → hexDigits.value c = none := by simp
    obtain ⟨address, hprint, hparse⟩ := parseHex_printHex (.ofNat p) hend
    have hrange := (hinv'.live_range List.mem_cons_self).2
    have hptr : (UInt32.ofNat p).toNat = p :=
      UInt32.toNat_ofNat_of_lt' (Nat.lt_of_le_of_lt (Nat.le_add_right p _) hrange)
    refine ⟨h', address, ?_, fun typed htyped => ?_⟩
    · rw [kmallocCommand, hserve]
      simp only [Option.bind_eq_bind, Option.bind_some, if_pos hp, hprint]
    · obtain ⟨h'', hfree, hlist⟩ := hinv.kfree_kmalloc hserve hp
      rw [List.append_nil, ← htyped] at hparse
      refine ⟨h'', ?_, hlist⟩
      rw [kfreeCommand, hparse, hptr, hfree, hprint]
      rfl

end Newrex
