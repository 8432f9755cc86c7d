import Newrex.Lib.Fields
import Newrex.Lib.StringMemory
import Newrex.Mm.Vmm
import Newrex.Shell.HexNumbers

/-!
# The commands for raw memory

The branches of `execute_command` in `kernel/kernel.c` for `peek`, `poke`, `dump` and `inject`.
The line that is executed lies in the same memory that they read and write, so that every loop
over it is modelled on addresses, with a bound on its steps. `none` means that the command does
not come to its end: a loop needs more steps, or the command uses an address that is not mapped,
and the page fault ends in `default_isr_handler`.

A part of the memory is the kernel's own, as it works while the commands run: its code, its
variables with the line and the trace, its stack, the video memory, the memory of the adapters and
the blocks that it has allocated. A command that stores there can do anything. The results are
about commands that use the rest of the mapped memory, which is free.

* `inject_fields`: in free memory `inject` stores one byte for each field behind the address, two
  spaces in a row giving a zero;
* `dump_then_inject`: what `dump` prints can be typed behind `inject`, which restores the bytes,
  and the line is short enough for both line editors;
* `poke_then_peek`: `poke` stores the low byte of its value, and its message shows the byte that
  `peek` will find exactly if the value is below 256.
-/

namespace Newrex

open Fields Numeral RexFS StringMemory X86

/-! ## Memory -/

/-- What `vmm_init` maps. -/
def mappedBytes : UInt32 := 0x400000

def loadByte (mem : UInt32 → UInt8) (a : UInt32) : Option UInt8 :=
  if a < mappedBytes then some (mem a) else none

def storeByte (mem : UInt32 → UInt8) (a : UInt32) (v : UInt8) : Option (UInt32 → UInt8) :=
  if a < mappedBytes then some (Function.update mem a v) else none

/-- An access faults where the page walk does. -/
theorem loadByte_isSome_iff {tables : BootTables} {paged : Nat → UInt8} (h : Mapped tables paged)
    (mem : UInt32 → UInt8) (a : UInt32) :
    (loadByte mem a).isSome = (pageWalk paged tables.directory false a.toNat).isSome := by
  have hmapped : a < mappedBytes ↔ a.toNat < 2 ^ 22 := UInt32.lt_iff_toNat_lt
  rw [loadByte, h.walk_kernel a.toNat_lt, if_congr hmapped rfl rfl]
  split
  · rfl
  · rfl

/-! ## The routines -/

/-- The loop of `parse_hex`, on memory. -/
def parseHexLoopAt (mem : UInt32 → UInt8) : (steps : Nat) → (str result : UInt32) → Option UInt32
  | 0, _, _ => none
  | steps + 1, str, result =>
    match hexVal (mem str) with
    | some val => parseHexLoopAt mem steps (str + 1) ((result <<< 4) ||| val)
    | none => some result

/-- `parse_hex`, on memory. -/
def parseHexAt (mem : UInt32 → UInt8) (steps : Nat) (str : UInt32) : Option UInt32 :=
  if mem str = 48 ∧ (mem (str + 1) = 120 ∨ mem (str + 1) = 88) then
    parseHexLoopAt mem steps (str + 1 + 1) 0
  else parseHexLoopAt mem steps str 0

/-- `while (*args != ' ' && *args != '\0') args++;` -/
def skipWord (mem : UInt32 → UInt8) (steps : Nat) (args : UInt32) : Option UInt32 :=
  skip (· + 1) (fun c => c = 32 || c = 0) mem steps args

/-- `skipWord`, and then `if (*args == ' ') args++;` -/
def skipField (mem : UInt32 → UInt8) (steps : Nat) (args : UInt32) : Option UInt32 :=
  (skipWord mem steps args).map fun args => if mem args = 32 then args + 1 else args

/-- The loop of `inject`: the memory and `byte_count`. -/
def injectLoop (target : UInt32) : (steps : Nat) → (UInt32 → UInt8) → (byteCount : Nat) →
    (args : UInt32) → Option ((UInt32 → UInt8) × Nat)
  | 0, _, _, _ => none
  | steps + 1, mem, byteCount, args =>
    if mem args = 0 then some (mem, byteCount)
    else do
      let opcode ← parseHexAt mem (steps + 1) args
      let mem ← storeByte mem (target + .ofNat byteCount) opcode.toUInt8
      let args ← skipField mem (steps + 1) args
      injectLoop target steps mem (byteCount + 1) args

/-- The machine when `inject` jumps: the memory, what was printed, the trace and the address. -/
structure Injection where
  memory : UInt32 → UInt8
  calls : List Print
  trace : TraceRing
  payload : UInt32

/-- The branch for `inject`, up to the jump. -/
def injectCommand (mem : UInt32 → UInt8) (trace : TraceRing) (steps : Nat) (args : UInt32) :
    Option Injection := do
  let addr ← parseHexAt mem steps args
  let args ← skipField mem steps args
  let (memory, byteCount) ← injectLoop addr steps mem 0 args
  let address ← printHex addr
  some {
    memory
    calls := [.literal "Injected " colorLightGreen, printedInt (.ofNat byteCount),
      .literal " bytes of raw machine code at " colorLightGreen] ++ address ++
      [.char 10, .literal "Jumping EIP to payload...\n" colorLightRed]
    trace := sysTrace trace (.ofLiteral "[EXEC] Live Opcode Injection")
    payload := addr }

/-- The loop of `dump`. -/
def dumpLoop (mem : UInt32 → UInt8) (ptr : UInt32) : (count : Nat) → Option (List Print)
  | 0 => some []
  | count + 1 => do
    let byte ← printHex (← loadByte mem ptr).toUInt32
    let others ← dumpLoop mem (ptr + 1) count
    some (byte ++ .char 32 :: others)

/-- The branch for `dump`. -/
def dumpCommand (mem : UInt32 → UInt8) (steps : Nat) (args : UInt32) : Option (List Print) := do
  let addr ← parseHexAt mem steps args
  let address ← printHex addr
  let bytes ← dumpLoop mem addr 16
  some (.literal "Hex Dump at " colorLightCyan :: address ++ .char 10 :: bytes)

/-- The branch for `peek`. -/
def peekCommand (mem : UInt32 → UInt8) (steps : Nat) (args : UInt32) : Option (List Print) := do
  let addr ← parseHexAt mem steps args
  let address ← printHex addr
  let byte ← printHex (← loadByte mem addr).toUInt32
  some (.literal "Memory at " colorLightCyan :: address ++
    .literal " contains: " colorLightCyan :: byte)

/-- The branch for `poke`. Without a space behind the address it does nothing. -/
def pokeCommand (mem : UInt32 → UInt8) (steps : Nat) (args : UInt32) :
    Option ((UInt32 → UInt8) × List Print) := do
  let addr ← parseHexAt mem steps args
  let args ← skipWord mem steps args
  if mem args = 32 then
    let val ← parseHexAt mem steps (args + 1)
    let mem ← storeByte mem addr val.toUInt8
    let value ← printHex val
    let address ← printHex addr
    some (mem,
      .literal "Successfully wrote " colorLightGreen :: value ++
        .literal " to address " colorLightGreen :: address)
  else some (mem, [])

/-! ## The line in memory -/

variable {mem : UInt32 → UInt8} {p target : UInt32} {text : List UInt8} {steps : Nat}

/-- The string at `p`. -/
def Line (mem : UInt32 → UInt8) (p : UInt32) (text : List UInt8) : Prop :=
  Holds (· + 1) 0 mem p text

/-- The addresses of a string of `n` characters and of its NUL. -/
def lineSpan (p : UInt32) (n : Nat) : List UInt32 := span (· + 1) p n

variable {own : UInt32 → Prop}

/-- The line is in a buffer of the kernel. -/
structure Typed (own : UInt32 → Prop) (mem : UInt32 → UInt8) (p : UInt32) (text : List UInt8) :
    Prop where
  line : Line mem p text
  own : ∀ a, a ∈ lineSpan p text.length → own a ∧ a < mappedBytes

/-- The address is mapped, and the kernel does not use it. -/
def Free (own : UInt32 → Prop) (a : UInt32) : Prop := a < mappedBytes ∧ ¬ own a

theorem Free.load {a : UInt32} (h : Free own a) : loadByte mem a = some (mem a) := if_pos h.1

theorem Free.store {a : UInt32} (h : Free own a) (v : UInt8) :
    storeByte mem a v = some (Function.update mem a v) := if_pos h.1

/-- A free address is not in the line. -/
theorem Typed.not_mem {a : UInt32} (h : Typed own mem p text) (ha : Free own a) :
    a ∉ lineSpan p text.length :=
  fun hmem => ha.2 (h.own a hmem).1

theorem parseHexLoopAt_eq (h : Line mem p text) (hsteps : text.length < steps) (result : UInt32) :
    parseHexLoopAt mem steps p result = some (parseHexLoop result text) := by
  induction steps generalizing p text result with
  | zero => exact absurd hsteps (Nat.not_lt_zero _)
  | succ steps ih =>
    cases text with
    | nil =>
      have hnul : mem p = 0 := h
      rw [parseHexLoopAt, hnul]
      rfl
    | cons c text =>
      rw [parseHexLoopAt, h.1, parseHexLoop]
      cases hexVal c with
      | none => rfl
      | some val => exact ih h.2.2 (Nat.lt_of_succ_lt_succ hsteps) _

/-- The memory at the start of a string. -/
theorem Line.head (h : Line mem p text) (c : UInt8) (hc : c ≠ 0) :
    mem p = c ↔ text[0]? = some c := by
  cases text with
  | nil =>
    have hnul : mem p = 0 := h
    rw [hnul]
    exact iff_of_false hc.symm (by simp)
  | cons d text =>
    rw [h.1, List.getElem?_cons_zero, Option.some.injEq]

theorem parseHexAt_eq (h : Line mem p text) (hsteps : text.length < steps) :
    parseHexAt mem steps p = some (parseHex text) := by
  have hfirst := Line.head h 48 (by decide)
  rw [parseHexAt, parseHex]
  cases text with
  | nil =>
    have hnul : mem p ≠ 48 := fun h48 => by cases hfirst.mp h48
    rw [if_neg fun hp => hnul hp.1, if_neg (by simp), parseHexLoopAt_eq h hsteps]
  | cons c text =>
    have hsecond (d : UInt8) (hd : d ≠ 0) : mem (p + 1) = d ↔ (c :: text)[1]? = some d :=
      Line.head h.2.2 d hd
    have hprefix := and_congr hfirst
      (or_congr (hsecond 120 (by decide)) (hsecond 88 (by decide)))
    rw [if_congr hprefix rfl rfl]
    split
    · next hp =>
      cases text with
      | nil => simp at hp
      | cons d text =>
        have hlt : text.length < steps := Nat.lt_of_succ_lt (Nat.lt_of_succ_lt hsteps)
        exact parseHexLoopAt_eq h.2.2.2.2 hlt 0
    · exact parseHexLoopAt_eq h hsteps 0

/-- The loop over a word, on a line without NUL. -/
theorem skipWord_eq (h : Line mem p text) (hsteps : text.length < steps) :
    ∃ q, skipWord mem steps p = some q ∧ Line mem q (text.dropWhile (· ≠ 32)) ∧
      ∀ a, a ∈ lineSpan q (text.dropWhile (· ≠ 32)).length → a ∈ lineSpan p text.length := by
  have hf : ∀ c : UInt8, c ≠ 0 → decide (c ≠ 32) = !(c = 32 || c = 0) := by
    intro c hc
    simp [hc]
  exact ⟨_, Holds.skip (by decide) hf h hsteps, Holds.dropWhile (fun c : UInt8 => c ≠ 32) h⟩

/-- What is behind a field. -/
theorem skipField_eq (h : Line mem p text) (hsteps : text.length < steps) :
    ∃ q, skipField mem steps p = some q ∧ Line mem q (behind 32 text) ∧
      ∀ a, a ∈ lineSpan q (behind 32 text).length → a ∈ lineSpan p text.length := by
  obtain ⟨q, hskip, hline, hspan⟩ := skipWord_eq h hsteps
  rw [skipField, hskip]
  rcases dropWhile_cases 32 text with ⟨hrest, hnil, _⟩ | hrest
  · rw [hrest] at hline hspan
    have hnul : mem q = 0 := hline
    rw [hnil]
    refine ⟨q, ?_, hline, hspan⟩
    rw [Option.map_some, hnul]
    rfl
  · rw [hrest] at hline hspan
    refine ⟨q + 1, ?_, hline.2.2, fun a ha => hspan a (List.mem_cons_of_mem q ha)⟩
    rw [Option.map_some, if_pos hline.1]

theorem Typed.behind (h : Typed own mem p text) (hsteps : text.length < steps) :
    ∃ q, skipField mem steps p = some q ∧ Typed own mem q (behind 32 text) := by
  obtain ⟨q, hskip, hline, hspan⟩ := skipField_eq h.line hsteps
  exact ⟨q, hskip, hline, fun a ha => h.own a (hspan a ha)⟩

theorem Typed.update {a : UInt32} (h : Typed own mem p text) (ha : Free own a) (v : UInt8) :
    Typed own (Function.update mem a v) p text :=
  ⟨Holds.update h.line (h.not_mem ha) v, h.own⟩

/-! ## Fields -/

theorem parseHexLoop_append (result : UInt32) (w rest : List UInt8) :
    parseHexLoop result (w ++ 32 :: rest) = parseHexLoop result w := by
  induction w generalizing result with
  | nil => rfl
  | cons c w ih =>
    rw [List.cons_append, parseHexLoop, parseHexLoop]
    cases hexVal c with
    | none => rfl
    | some val => exact ih _

theorem parseHex_append (w rest : List UInt8) : parseHex (w ++ 32 :: rest) = parseHex w := by
  have hloop := parseHexLoop_append 0
  cases w with
  | nil => rfl
  | cons c w =>
    cases w with
    | nil =>
      have hprefix : ∀ tail : List UInt8, tail[0]? ≠ some 120 → tail[0]? ≠ some 88 →
          parseHex (c :: tail) = parseHexLoop 0 (c :: tail) := by
        intro tail hx hX
        refine if_neg ?_
        rintro ⟨_, h | h⟩
        · exact hx h
        · exact hX h
      rw [List.singleton_append, hprefix _ (by simp) (by simp), hprefix [] (by simp) (by simp)]
      exact hloop [c] rest
    | cons d w =>
      rw [parseHex, parseHex]
      refine if_congr Iff.rfl ?_ ?_
      · exact hloop w rest
      · exact hloop (c :: d :: w) rest

/-- A number is read up to the end of its field. -/
theorem parseHex_field (text : List UInt8) : parseHex text = parseHex (field 32 text) := by
  rcases text_eq 32 text with heq | heq
  · exact congrArg parseHex heq
  · exact (congrArg parseHex heq).trans (parseHex_append _ _)

/-- The byte that `inject` stores for a field. -/
def fieldByte (w : List UInt8) : UInt8 := (parseHex w).toUInt8

theorem add_ofNat_succ (a : UInt32) (n : Nat) : a + .ofNat (n + 1) = a + .ofNat n + 1 := by
  rw [UInt32.ofNat_add, UInt32.add_assoc]
  rfl

/-- The loop of `inject` stores the byte of every field in free memory. -/
theorem injectLoop_eq (h : Typed own mem p text) (hsteps : text.length < steps) (count : Nat)
    (hfree : ∀ i, i < (fields 32 text).length → Free own (target + .ofNat (count + i))) :
    injectLoop target steps mem count p =
      some (storeAll (· + 1) mem (target + .ofNat count) ((fields 32 text).map fieldByte),
        count + (fields 32 text).length) := by
  induction steps generalizing mem p text count with
  | zero => exact absurd hsteps (Nat.not_lt_zero _)
  | succ steps ih =>
    rw [injectLoop]
    cases hnil : text with
    | nil =>
      subst hnil
      have hnul : mem p = 0 := h.line
      rw [if_pos hnul, fields_nil]
      rfl
    | cons c rest =>
      have hne : text ≠ [] := by rw [hnil]; exact List.cons_ne_nil c rest
      have hchar : mem p ≠ 0 := by
        have hline := h.line
        rw [hnil] at hline
        exact hline.1 ▸ hline.2.1
      rw [← hnil]
      rw [fields_of_ne_nil 32 hne] at hfree ⊢
      have hfirst : Free own (target + .ofNat count) := hfree 0 (Nat.succ_pos _)
      have hkept := h.update hfirst (fieldByte (field 32 text))
      obtain ⟨q, hskip, hrest⟩ := hkept.behind hsteps
      have hlen : (behind 32 text).length < steps :=
        Nat.lt_of_lt_of_le (length_behind_lt 32 hne) (Nat.lt_succ_iff.mp hsteps)
      have hnext := ih hrest hlen (count + 1) fun i hi => by
        rw [Nat.add_assoc, Nat.add_comm 1]
        exact hfree (i + 1) (Nat.succ_lt_succ hi)
      have hbyte : (parseHex (field 32 text)).toUInt8 = fieldByte (field 32 text) := rfl
      rw [if_neg hchar, parseHexAt_eq h.line hsteps, parseHex_field text]
      simp only [Option.bind_eq_bind, Option.bind_some]
      rw [hbyte, hfirst.store, Option.bind_some, hskip, Option.bind_some, hnext, add_ofNat_succ,
        List.map_cons, storeAll, List.length_cons, Nat.add_assoc, Nat.add_comm 1]

/-! ## The stores -/

theorem iterate_add_one (a : UInt32) (n : Nat) : (· + 1)^[n] a = a + .ofNat n := by
  induction n with
  | zero => exact (UInt32.add_zero a).symm
  | succ n ih => rw [Function.iterate_succ_apply', ih, add_ofNat_succ]

/-- `mem'` is `mem` with the bytes from `a` on, outside of the kernel. -/
structure Stored (own : UInt32 → Prop) (mem mem' : UInt32 → UInt8) (a : UInt32)
    (bytes : List UInt8) : Prop where
  inside : ∀ i, i < bytes.length → bytes[i]? = some (mem' (a + .ofNat i))
  outside : ∀ b, ¬ own b → (∀ i, i < bytes.length → b ≠ a + .ofNat i) → mem' b = mem b

theorem stored_storeAll {bytes : List UInt8} (h : bytes.length ≤ 2 ^ 32) (a : UInt32) :
    Stored own mem (storeAll (· + 1) mem a bytes) a bytes where
  inside i hi := by
    have hinj : ∀ i j, i < bytes.length → j < bytes.length →
        (· + 1)^[i] a = (· + 1)^[j] a → i = j := by
      intro i j hi hj heq
      rw [iterate_add_one, iterate_add_one, UInt32.add_right_inj] at heq
      have hmod := congrArg UInt32.toNat heq
      rwa [UInt32.toNat_ofNat_of_lt' (Nat.lt_of_lt_of_le hi h),
        UInt32.toNat_ofNat_of_lt' (Nat.lt_of_lt_of_le hj h)] at hmod
    rw [← iterate_add_one, storeAll_at hinj hi]
    exact List.getElem?_eq_getElem hi
  outside b _ hb := storeAll_outside fun i hi => by
    rw [iterate_add_one]
    exact hb i hi

theorem mem_lineSpan (p : UInt32) {k n : Nat} (h : k ≤ n) : p + .ofNat k ∈ lineSpan p n := by
  have hself : (· + 1)^[k] p ∈ lineSpan p n := span_drop k h (mem_span_self _ _)
  rwa [iterate_add_one] at hself

/-- A line that does not wrap around. -/
theorem lineSpan_bounds {a : UInt32} {n : Nat} (hend : p.toNat + n < 2 ^ 32)
    (ha : a ∈ lineSpan p n) : p.toNat ≤ a.toNat ∧ a.toNat ≤ p.toNat + n := by
  induction n generalizing p with
  | zero =>
    cases List.mem_singleton.mp ha
    exact ⟨Nat.le_refl _, Nat.le_refl _⟩
  | succ n ih =>
    have hnext : (p + 1).toNat = p.toNat + 1 := by
      rw [UInt32.toNat_add]
      exact Nat.mod_eq_of_lt (by rw [UInt32.toNat_one]; omega)
    rcases List.mem_cons.mp ha with rfl | ha
    · exact ⟨Nat.le_refl _, Nat.le_add_right _ _⟩
    · have hbounds := ih (by rw [hnext]; omega) ha
      rw [hnext] at hbounds
      omega

/-- A line that leaves an address free is short. -/
theorem length_lt_of_free {a : UInt32} {n : Nat} (h : a ∉ lineSpan p n) : n < 2 ^ 32 := by
  refine Nat.lt_of_not_le fun hn => h ?_
  have hle : (a - p).toNat ≤ n := Nat.le_of_lt (Nat.lt_of_lt_of_le (a - p).toNat_lt hn)
  have hmem := mem_lineSpan p hle
  rwa [UInt32.ofNat_toNat, UInt32.add_comm, UInt32.sub_add_cancel] at hmem

/-- A memory with one line. -/
def lineMemory (p : UInt32) (text : List UInt8) : UInt32 → UInt8 :=
  fun a => text.getD (a - p).toNat 0

theorem Line.of_getD (hnul : ∀ c ∈ text, c ≠ 0)
    (h : ∀ i, i ≤ text.length → mem (p + .ofNat i) = text.getD i 0) : Line mem p text := by
  induction text generalizing p with
  | nil =>
    have hend := h 0 (Nat.le_refl 0)
    rwa [show p + UInt32.ofNat 0 = p from UInt32.add_zero p] at hend
  | cons c text ih =>
    obtain ⟨hc, htext⟩ := List.forall_mem_cons.mp hnul
    have hfirst := h 0 (Nat.zero_le _)
    rw [show p + UInt32.ofNat 0 = p from UInt32.add_zero p] at hfirst
    refine ⟨hfirst, hc, ih htext fun i hi => ?_⟩
    have hnext := h (i + 1) (Nat.succ_le_succ hi)
    rwa [add_ofNat_succ, UInt32.add_assoc, UInt32.add_comm (.ofNat i), ← UInt32.add_assoc] at hnext

theorem line_lineMemory (hnul : ∀ c ∈ text, c ≠ 0) (hlen : text.length < 2 ^ 32) :
    Line (lineMemory p text) p text := by
  refine Line.of_getD hnul fun i hi => ?_
  rw [lineMemory, UInt32.add_comm, UInt32.add_sub_cancel,
    UInt32.toNat_ofNat_of_lt' (Nat.lt_of_le_of_lt hi hlen)]

/-- `inject` stores one byte for each field behind the address, in their order, and nothing
else outside of the kernel. Every separator but one at the end of the line is followed by a field,
which may be empty and then stores a zero. The line is read meanwhile. -/
theorem inject_fields (h : Typed own mem p text) (hsteps : text.length < steps)
    (hfree : ∀ i, i < (fields 32 (behind 32 text)).length → Free own (parseHex text + .ofNat i))
    (trace : TraceRing) :
    ∃ mem' address, printHex (parseHex text) = some address ∧
      injectCommand mem trace steps p = some ⟨mem', [.literal "Injected " colorLightGreen,
          printedInt (.ofNat (fields 32 (behind 32 text)).length),
          .literal " bytes of raw machine code at " colorLightGreen] ++ address ++
          [.char 10, .literal "Jumping EIP to payload...\n" colorLightRed],
          sysTrace trace (.ofLiteral "[EXEC] Live Opcode Injection"), parseHex text⟩ ∧
      Stored own mem mem' (parseHex text) ((fields 32 (behind 32 text)).map fieldByte) := by
  obtain ⟨q, hskip, hrest⟩ := h.behind hsteps
  have hlen := length_behind_le 32 text
  have hloop := injectLoop_eq hrest (Nat.lt_of_le_of_lt hlen hsteps) 0 fun i hi => by
    rw [Nat.zero_add]
    exact hfree i hi
  have hzero : parseHex text + UInt32.ofNat 0 = parseHex text := UInt32.add_zero _
  rw [hzero, Nat.zero_add] at hloop
  refine ⟨_, _, printHex_eq _, ?_, stored_storeAll ?_ _⟩
  · rw [injectCommand, parseHexAt_eq h.line hsteps, Option.bind_eq_bind, Option.bind_some, hskip,
      Option.bind_eq_bind, Option.bind_some, hloop, printHex_eq]
    rfl
  · rw [List.length_map]
    cases hn : (fields 32 (behind 32 text)).length with
    | zero => exact Nat.zero_le _
    | succ n =>
      have hshort := length_lt_of_free (h.not_mem (hfree 0 (hn ▸ Nat.succ_pos n)))
      rw [← hn]
      exact Nat.le_trans (length_fields_le 32 _) (Nat.le_of_lt (Nat.lt_of_le_of_lt hlen hshort))

/-- The megabyte that starts with the kernel. -/
def sampleOwn (a : UInt32) : Prop := 0x100000 ≤ a ∧ a < 0x200000

instance (a : UInt32) : Decidable (Free sampleOwn a) :=
  inferInstanceAs (Decidable (_ ∧ ¬ (_ ∧ _)))

/-- A line in the kernel. -/
theorem typed_sample (hnul : ∀ c ∈ text, c ≠ 0) (hp : 0x100000 ≤ p.toNat)
    (hend : p.toNat + text.length < 0x200000) : Typed sampleOwn (lineMemory p text) p text where
  line := line_lineMemory hnul (by omega)
  own a ha := by
    obtain ⟨hlow, hhigh⟩ := lineSpan_bounds (by omega) ha
    have hlt : a.toNat < 0x200000 := Nat.lt_of_le_of_lt hhigh hend
    exact ⟨⟨UInt32.le_iff_toNat_le.mpr (Nat.le_trans hp hlow), UInt32.lt_iff_toNat_lt.mpr hlt⟩,
      UInt32.lt_iff_toNat_lt.mpr (Nat.lt_trans hlt (by decide))⟩

/-- `300000 90  C3`, with two spaces. -/
def sampleArgs : List UInt8 := [51, 48, 48, 48, 48, 48, 32, 57, 48, 32, 32, 67, 51]

theorem inject_fields_sample :
    ∃ mem' calls trace,
      injectCommand (lineMemory 0x180000 sampleArgs) .empty 14 0x180000 =
        some ⟨mem', calls, trace, 0x300000⟩ ∧
      Stored sampleOwn (lineMemory 0x180000 sampleArgs) mem' 0x300000 [0x90, 0, 0xC3] := by
  have htyped : Typed sampleOwn (lineMemory 0x180000 sampleArgs) 0x180000 sampleArgs :=
    typed_sample (by decide +kernel) (by decide) (by decide)
  have hfields : fields 32 (behind 32 sampleArgs) = [[57, 48], [], [67, 51]] := by
    simp [sampleArgs, fields, field, behind]
  have hsteps : sampleArgs.length < 14 := by decide
  obtain ⟨mem', _, _, hinject, hstored⟩ := inject_fields htyped hsteps (by
    rw [hfields]
    decide) .empty
  rw [hfields] at hstored
  exact ⟨mem', _, _, hinject, hstored⟩

/-! ## Printed numbers as fields -/

/-- The characters of `print_hex`. -/
def hexText (num : UInt32) : List UInt8 := 48 :: 120 :: hexDigits.numeral num.toNat

theorem printHex_hexText (num : UInt32) :
    ∃ calls, printHex num = some calls ∧ emitted calls = hexText num :=
  ⟨_, printHex_eq num, congrArg (48 :: 120 :: ·) (emitted_yellow _)⟩

theorem parseHex_hexText (num : UInt32) : parseHex (hexText num) = num := by
  have hend : ∀ c, ([] : List UInt8).head? = some c → hexDigits.value c = none := by simp
  obtain ⟨calls, hprint, hparse⟩ := parseHex_printHex num hend
  obtain ⟨calls', hprint', htext⟩ := printHex_hexText num
  rw [hprint] at hprint'
  cases hprint'
  rwa [List.append_nil, htext] at hparse

theorem printHex_injective {m n : UInt32} (h : printHex m = printHex n) : m = n := by
  obtain ⟨calls, hm, htext⟩ := printHex_hexText m
  obtain ⟨calls', hn, htext'⟩ := printHex_hexText n
  rw [hm, hn] at h
  cases h
  rw [← parseHex_hexText m, ← htext, htext', parseHex_hexText]

/-- There are only digits behind the prefix. -/
theorem not_mem_hexText {c : UInt8} (hvalue : hexDigits.value c = none) (hx : c ≠ 120)
    (num : UInt32) : c ∉ hexText num := by
  intro hmem
  rw [hexText, List.mem_cons, List.mem_cons] at hmem
  rcases hmem with rfl | h | h
  · cases hvalue
  · exact hx h
  · exact DigitSet.value_of_extend (hexDigits.denotes_numeral num.toNat).2 c h hvalue

theorem length_hexText_le {num : UInt32} {w : Nat} (hw : 0 < w) (hnum : num.toNat < 16 ^ w) :
    (hexText num).length ≤ w + 2 :=
  Nat.add_le_add_right (DigitSet.length_numeral_le (D := hexDigits) hw hnum) 2

/-- A printed byte is stored as that byte. -/
theorem fieldByte_hexText (b : UInt8) : fieldByte (hexText b.toUInt32) = b := by
  rw [fieldByte, parseHex_hexText, UInt8.toUInt8_toUInt32]

/-- The bytes from an address on. -/
def memoryBytes (mem : UInt32 → UInt8) (a : UInt32) (count : Nat) : List UInt8 :=
  (List.range count).map fun i => mem (a + .ofNat i)

theorem length_memoryBytes (mem : UInt32 → UInt8) (a : UInt32) (count : Nat) :
    (memoryBytes mem a count).length = count := by
  rw [memoryBytes, List.length_map, List.length_range]

theorem memoryBytes_succ (a : UInt32) (count : Nat) :
    memoryBytes mem a (count + 1) = mem a :: memoryBytes mem (a + 1) count := by
  rw [memoryBytes, List.range_succ_eq_map, List.map_cons, List.map_map]
  refine congrArg₂ List.cons (congrArg mem (UInt32.add_zero a)) (List.map_congr_left fun i _ => ?_)
  show mem (a + .ofNat (i + 1)) = mem (a + 1 + .ofNat i)
  rw [add_ofNat_succ, UInt32.add_assoc, UInt32.add_assoc, UInt32.add_comm 1]

/-- Bytes that were read somewhere are stored somewhere else. -/
theorem Stored.eq_of_memoryBytes {before mem' : UInt32 → UInt8} {a b : UInt32} {count i : Nat}
    (h : Stored own mem mem' a (memoryBytes before b count)) (hi : i < count) :
    mem' (a + .ofNat i) = before (b + .ofNat i) := by
  have hinside := h.inside i (by rwa [length_memoryBytes])
  rw [memoryBytes, List.getElem?_map, List.getElem?_range hi] at hinside
  exact (Option.some.inj hinside).symm

/-- The dump shows each byte, with a space behind it. -/
theorem dumpLoop_text (a : UInt32) (count : Nat)
    (hfree : ∀ i, i < count → Free own (a + .ofNat i)) :
    ∃ calls, dumpLoop mem a count = some calls ∧ emitted calls =
      terminated 32 ((memoryBytes mem a count).map fun b => hexText b.toUInt32) := by
  induction count generalizing a with
  | zero => exact ⟨[], rfl, rfl⟩
  | succ count ih =>
    obtain ⟨others, hloop, htext⟩ := ih (a + 1) fun i hi => by
      have hnext := hfree (i + 1) (Nat.succ_lt_succ hi)
      rwa [add_ofNat_succ, UInt32.add_assoc, UInt32.add_comm _ 1, ← UInt32.add_assoc] at hnext
    obtain ⟨byte, hbyte, hchars⟩ := printHex_hexText (mem a).toUInt32
    have hfirst := hfree 0 (Nat.succ_pos count)
    rw [show a + UInt32.ofNat 0 = a from UInt32.add_zero a] at hfirst
    refine ⟨byte ++ .char 32 :: others, ?_, ?_⟩
    · rw [dumpLoop, hfirst.load, Option.bind_eq_bind, Option.bind_some, hbyte, hloop]
      rfl
    · rw [memoryBytes_succ, List.map_cons, terminated, List.flatMap_cons, ← hchars,
        List.append_assoc]
      refine (List.flatMap_append ..).trans (congrArg (emitted byte ++ ·) ?_)
      exact congrArg (32 :: ·) htext

/-- What `dump` prints for the 16 bytes from `a` on. -/
def dumpText (mem : UInt32 → UInt8) (a : UInt32) : List UInt8 :=
  terminated 32 ((memoryBytes mem a 16).map fun b => hexText b.toUInt32)

/-- A byte takes at most five characters, with the space behind it. -/
theorem length_hexFields_le (bytes : List UInt8) :
    (terminated 32 (bytes.map fun b => hexText b.toUInt32)).length ≤ 5 * bytes.length := by
  induction bytes with
  | nil => exact Nat.le_refl 0
  | cons b bytes ih =>
    have hb : (hexText b.toUInt32).length ≤ 4 :=
      length_hexText_le (by decide) (by rw [UInt8.toNat_toUInt32]; exact b.toNat_lt)
    rw [List.map_cons, terminated, List.flatMap_cons, List.length_append, List.length_append,
      List.length_singleton, List.length_cons, Nat.mul_succ, Nat.add_comm]
    exact Nat.add_le_add ih (Nat.succ_le_succ hb)

/-- The arguments of an `inject` of a dump. -/
theorem length_dumpArgs_le (target : UInt32) (mem : UInt32 → UInt8) (a : UInt32) :
    (hexText target ++ 32 :: dumpText mem a).length ≤ 91 := by
  have haddress : (hexText target).length ≤ 10 := length_hexText_le (by decide) target.toNat_lt
  have hdump : (dumpText mem a).length ≤ 80 := by
    have hle := length_hexFields_le (memoryBytes mem a 16)
    rwa [length_memoryBytes] at hle
  rw [List.length_append, List.length_cons]
  exact Nat.add_le_add haddress (Nat.succ_le_succ hdump)

/-- The fields of the dump are its bytes. -/
theorem fieldBytes_dumpText (mem : UInt32 → UInt8) (a : UInt32) :
    (fields 32 (dumpText mem a)).map fieldByte = memoryBytes mem a 16 := by
  have hwords : ∀ w ∈ (memoryBytes mem a 16).map fun b => hexText b.toUInt32, 32 ∉ w := by
    intro w hw
    obtain ⟨b, _, rfl⟩ := List.mem_map.mp hw
    exact not_mem_hexText rfl (by decide) _
  rw [dumpText, fields_terminated 32 hwords, List.map_map]
  exact (List.map_congr_left fun b _ => fieldByte_hexText b).trans (List.map_id _)

/-! ## Results -/

/-- What `dump` prints behind its header can be typed behind `inject` and an address, and then
the 16 bytes are stored there; at the address of the dump itself they are restored. With the
word `inject ` the line has at most 98 characters, and so it fits the terminal and the window
manager. -/
theorem dump_then_inject {before : UInt32 → UInt8} {q : UInt32} {line : List UInt8} {n : Nat}
    (hq : Typed own before q line) (hn : line.length < n)
    (hsource : ∀ i, i < 16 → Free own (parseHex line + .ofNat i))
    (hp : Typed own mem p (hexText target ++ 32 :: dumpText before (parseHex line)))
    (hsteps : (hexText target ++ 32 :: dumpText before (parseHex line)).length < steps)
    (htarget : ∀ i, i < 16 → Free own (target + .ofNat i)) (trace : TraceRing) :
    ∃ address bytes mem' calls trace',
      dumpCommand before n q =
        some (.literal "Hex Dump at " colorLightCyan :: address ++ .char 10 :: bytes) ∧
      emitted bytes = dumpText before (parseHex line) ∧
      7 + (hexText target ++ 32 :: emitted bytes).length ≤ 98 ∧
      injectCommand mem trace steps p = some ⟨mem', calls, trace', target⟩ ∧
      Stored own mem mem' target (memoryBytes before (parseHex line) 16) := by
  obtain ⟨bytes, hloop, htext⟩ : ∃ bytes, dumpLoop before (parseHex line) 16 = some bytes ∧
      emitted bytes = dumpText before (parseHex line) := dumpLoop_text (parseHex line) 16 hsource
  obtain ⟨address, haddress, _⟩ := printHex_hexText (parseHex line)
  have hspace : 32 ∉ hexText target := not_mem_hexText rfl (by decide) target
  have hbehind := behind_append 32 hspace (dumpText before (parseHex line))
  have hcount : (fields 32 (dumpText before (parseHex line))).length = 16 := by
    have hbytes := congrArg List.length (fieldBytes_dumpText before (parseHex line))
    rwa [List.length_map, length_memoryBytes] at hbytes
  have haddr : parseHex (hexText target ++ 32 :: dumpText before (parseHex line)) = target := by
    rw [parseHex_append, parseHex_hexText]
  obtain ⟨mem', _, _, hinject, hstored⟩ := inject_fields hp hsteps (by
    rw [hbehind, hcount, haddr]
    exact htarget) trace
  rw [hbehind, haddr] at hinject
  rw [hbehind, haddr, fieldBytes_dumpText] at hstored
  refine ⟨address, bytes, mem', _, _, ?_, htext, ?_, hinject, hstored⟩
  · rw [dumpCommand, parseHexAt_eq hq.line hn, Option.bind_eq_bind, Option.bind_some, haddress,
      Option.bind_eq_bind, Option.bind_some, hloop]
    rfl
  · rw [htext]
    exact Nat.add_le_add_left (length_dumpArgs_le target before (parseHex line)) 7

theorem zero_not_mem_dumpText (mem : UInt32 → UInt8) (a : UInt32) : 0 ∉ dumpText mem a := by
  intro hmem
  obtain ⟨w, hw, hmem⟩ := List.mem_flatMap.mp hmem
  obtain ⟨b, _, rfl⟩ := List.mem_map.mp hw
  rcases List.mem_append.mp hmem with hmem | hmem
  · exact not_mem_hexText rfl (by decide) _ hmem
  · cases List.mem_singleton.mp hmem

/-- `300000`. -/
def sampleLine : List UInt8 := [51, 48, 48, 48, 48, 48]

/-- The 16 bytes from 0x300000 on are dumped and injected at 0x300100. -/
theorem dump_then_inject_sample :
    ∃ mem mem' calls trace, injectCommand mem .empty 92 0x180000 =
        some ⟨mem', calls, trace, 0x300100⟩ ∧
      ∀ i, i < 16 → mem' (0x300100 + .ofNat i) =
        lineMemory 0x170000 sampleLine (0x300000 + .ofNat i) := by
  let before := lineMemory 0x170000 sampleLine
  let text := hexText 0x300100 ++ 32 :: dumpText before 0x300000
  have hq : Typed sampleOwn before 0x170000 sampleLine :=
    typed_sample (by decide +kernel) (by decide) (by decide)
  have hlen : text.length ≤ 91 := length_dumpArgs_le 0x300100 before 0x300000
  have hnul : ∀ c ∈ text, c ≠ 0 := by
    rintro c hc rfl
    rcases List.mem_append.mp hc with hc | hc
    · exact not_mem_hexText rfl (by decide) _ hc
    · rcases List.mem_cons.mp hc with hc | hc
      · cases hc
      · exact zero_not_mem_dumpText _ _ hc
  have hp : Typed sampleOwn (lineMemory 0x180000 text) 0x180000 text :=
    typed_sample hnul (by decide) (Nat.lt_of_le_of_lt (Nat.add_le_add_left hlen _) (by decide))
  have hsource : ∀ i, i < 16 → Free sampleOwn (0x300000 + .ofNat i) := by decide
  have htarget : ∀ i, i < 16 → Free sampleOwn (0x300100 + .ofNat i) := by decide
  obtain ⟨_, _, mem', calls, _, _, _, _, hinject, hstored⟩ := dump_then_inject hq
    (show sampleLine.length < 7 by decide) hsource hp (Nat.lt_succ_of_le hlen) htarget .empty
  exact ⟨_, mem', calls, _, hinject, fun i hi => hstored.eq_of_memoryBytes hi⟩

theorem printHex_byte_eq_iff (val : UInt32) :
    printHex val.toUInt8.toUInt32 = printHex val ↔ val.toNat < 256 := by
  have hlow : val.toUInt8.toUInt32.toNat = val.toNat % 256 := by
    rw [UInt8.toNat_toUInt32, UInt32.toNat_toUInt8]
  constructor
  · intro h
    have hval := congrArg UInt32.toNat (printHex_injective h)
    rw [hlow] at hval
    exact hval ▸ Nat.mod_lt _ (by decide)
  · intro h
    exact congrArg printHex (UInt32.toNat.inj (hlow.trans (Nat.mod_eq_of_lt h)))

/-- `poke` stores the low byte of its value at its address, nothing else outside of the kernel, and
prints the whole value. A `peek` at this address, on a line that is typed later, prints that byte
if it is still there, and so the two agree exactly if the value is below 256. -/
theorem poke_then_peek (h : Typed own mem p text) (hsteps : text.length < steps)
    (hspace : 32 ∈ text) (hfree : Free own (parseHex text)) :
    ∃ value address mem',
      printHex (parseHex (behind 32 text)) = some value ∧
      pokeCommand mem steps p =
        some (mem', .literal "Successfully wrote " colorLightGreen :: value ++
            .literal " to address " colorLightGreen :: address) ∧
      mem' (parseHex text) = fieldByte (behind 32 text) ∧
      (∀ b, ¬ own b → b ≠ parseHex text → mem' b = mem b) ∧
      ∀ later q line steps, Typed own later q line → line.length < steps →
        parseHex line = parseHex text → later (parseHex text) = mem' (parseHex text) →
        ∃ byte, peekCommand later steps q =
            some (.literal "Memory at " colorLightCyan :: address ++
              .literal " contains: " colorLightCyan :: byte) ∧
          (byte = value ↔ (parseHex (behind 32 text)).toNat < 256) := by
  obtain ⟨value, hvalue, _⟩ := printHex_hexText (parseHex (behind 32 text))
  obtain ⟨address, haddress, _⟩ := printHex_hexText (parseHex text)
  refine ⟨value, address, Function.update mem (parseHex text) (fieldByte (behind 32 text)), hvalue,
    ?_, Function.update_self .., fun b _ hb => Function.update_of_ne hb _ _,
    fun later q line steps hq hsteps heq hkept => ?_⟩
  · obtain ⟨r, hskip, hrest, _⟩ := skipWord_eq h.line hsteps
    have hdrop : text.dropWhile (· ≠ 32) = 32 :: behind 32 text := by
      rcases dropWhile_cases 32 text with ⟨_, _, hnone⟩ | hdrop
      · exact absurd hspace hnone
      · exact hdrop
    rw [hdrop] at hrest
    have hval := parseHexAt_eq hrest.2.2 (Nat.lt_of_le_of_lt (length_behind_le 32 text) hsteps)
    rw [pokeCommand, parseHexAt_eq h.line hsteps]
    simp only [Option.bind_eq_bind, Option.bind_some, hskip, if_pos hrest.1, hval, hfree.store,
      hvalue, haddress]
    rfl
  · obtain ⟨byte, hbyte, _⟩ := printHex_hexText (fieldByte (behind 32 text)).toUInt32
    rw [Function.update_self] at hkept
    refine ⟨byte, ?_, ?_⟩
    · rw [peekCommand, parseHexAt_eq hq.line hsteps, Option.bind_eq_bind, Option.bind_some, heq,
        haddress, Option.bind_eq_bind, Option.bind_some, hfree.load, Option.bind_eq_bind,
        Option.bind_some, hkept, hbyte]
      rfl
    · have hiff := printHex_byte_eq_iff (parseHex (behind 32 text))
      rw [← hiff, hvalue]
      rw [fieldByte] at hbyte
      rw [hbyte, Option.some.injEq]

/-- `300000 1FF`. -/
def samplePoke : List UInt8 := [51, 48, 48, 48, 48, 48, 32, 49, 70, 70]

/-- The message says 0x1FF, and the byte is 0xFF. -/
theorem poke_then_peek_sample :
    ∃ mem said address byte,
      pokeCommand (lineMemory 0x180000 samplePoke) 11 0x180000 =
        some (mem, .literal "Successfully wrote " colorLightGreen :: said ++
          .literal " to address " colorLightGreen :: address) ∧
      peekCommand (Function.update (lineMemory 0x180000 sampleLine) 0x300000 0xFF) 7 0x180000 =
        some (.literal "Memory at " colorLightCyan :: address ++
          .literal " contains: " colorLightCyan :: byte) ∧
      byte ≠ said := by
  have htyped : Typed sampleOwn (lineMemory 0x180000 samplePoke) 0x180000 samplePoke :=
    typed_sample (by decide +kernel) (by decide) (by decide)
  have hlater : Typed sampleOwn (lineMemory 0x180000 sampleLine) 0x180000 sampleLine :=
    typed_sample (by decide +kernel) (by decide) (by decide)
  have hfree : Free sampleOwn 0x300000 := by decide
  obtain ⟨said, address, mem, _, hpoke, hbyte, -, hpeek⟩ := poke_then_peek htyped
    (show samplePoke.length < 11 by decide) (by decide) hfree
  obtain ⟨byte, hfound, hiff⟩ := hpeek _ 0x180000 sampleLine 7 (hlater.update hfree 0xFF)
    (by decide) rfl ((Function.update_self ..).trans hbyte.symm)
  exact ⟨mem, said, address, byte, hpoke, hfound, fun heq => absurd (hiff.mp heq) (by decide)⟩

end Newrex
