import Newrex.Lib.Search
import Newrex.Lib.Transition
import Newrex.Pmm.Basic

/-!
# Runs of the frame allocator

After `pmm_init_from_mmap` any frames are allocated, and frames that were handed out
are freed, in any order.

* `pmmInitFromMmap_sound`: the initialisation leaves a bitmap of at most 8192 frames and
  the number of its set bits, whatever the memory map says.
* `pmmAllocBlock_spec`, `pmmFreeBlock_spec`: one allocation and one release.
* `PmmInv`: the set bits are those the initialisation left and those of the frames that
  are handed out. `run_pmm_safety` is the result for all runs.
-/

namespace Newrex

namespace Pmm

variable {s : Pmm}

/-! ## The counter -/

/-- The number of tracked frames is in the range of the bitmap and the counter is right. -/
structure Sound (s : Pmm) : Prop where
  reserve_le : pmmConservativeReserveFrames ≤ s.maxBlocks
  le_bitmap : s.maxBlocks ≤ 8192
  used : s.usedBlocks = Bitmap.setBits s.memoryBitmap s.maxBlocks

theorem testBit_eq (s : Pmm) (bit : Nat) : s.testBit bit = Bitmap.test s.memoryBitmap bit := by
  rw [testBit, Bitmap.isClear_eq (Nat.mod_lt _ (by decide)), Bool.not_not]
  rfl

/-- The counting loop over the first `n` frames. -/
theorem recount_eq (s : Pmm) {n : Nat} (hn : n < 2 ^ 32) :
    (List.range n).foldl (fun used i => if s.testBit i then add32 used 1 else used) 0 =
      Bitmap.setBits s.memoryBitmap n := by
  induction n with
  | zero => simp [Bitmap.setBits]
  | succ n ih =>
    have hle := Bitmap.setBits_le s.memoryBitmap n
    rw [List.range_succ, List.foldl_append, ih (by omega), List.foldl_cons, List.foldl_nil,
      testBit_eq, Bitmap.setBits, Bitmap.setBits, Nat.count_succ]
    split
    · rw [Bitmap.setBits] at hle
      rw [add32, Nat.mod_eq_of_lt (by omega)]
    · rw [Nat.add_zero]

theorem recountUsedBlocks_sound (hlow : pmmConservativeReserveFrames ≤ s.maxBlocks)
    (hhigh : s.maxBlocks ≤ 8192) : s.recountUsedBlocks.Sound :=
  ⟨hlow, hhigh, s.recount_eq (by omega)⟩

/-! ## The initialisation -/

theorem foldl_maxBlocks {α : Type} (f : Pmm → α → Pmm)
    (hf : ∀ s a, (f s a).maxBlocks = s.maxBlocks) (as : List α) (s : Pmm) :
    (as.foldl f s).maxBlocks = s.maxBlocks := by
  induction as generalizing s with
  | nil => rfl
  | cons a as ih => rw [List.foldl_cons, ih, hf]

theorem markFrames_maxBlocks (s : Pmm) (base length : Nat) (used : Bool) :
    (s.markFrames base length used).maxBlocks = s.maxBlocks := by
  refine foldl_maxBlocks _ (fun s frame => ?_) _ s
  cases used <;> rfl

theorem markEntry_maxBlocks (mem : Nat → UInt8) (s : Pmm) (entry : Nat) :
    (markEntry mem s entry).maxBlocks = s.maxBlocks := by
  unfold markEntry
  split
  · exact markFrames_maxBlocks _ _ _ _
  · rfl

theorem markMemory_maxBlocks {mem : Nat → UInt8} {mbi : Nat} {s' : Pmm}
    (h : markMemory mem mbi s = some s') : s'.maxBlocks = s.maxBlocks := by
  unfold markMemory at h
  split at h
  · obtain ⟨entries, _, rfl⟩ := Option.map_eq_some_iff.mp h
    exact foldl_maxBlocks _ (markEntry_maxBlocks mem) _ _
  · split at h
    · obtain rfl := Option.some.inj h
      exact markFrames_maxBlocks _ _ _ _
    · obtain rfl := Option.some.inj h
      rfl

theorem reserveConservativeRegion_maxBlocks (s : Pmm) :
    s.reserveConservativeRegion.maxBlocks = s.maxBlocks :=
  foldl_maxBlocks setBit (fun _ _ => rfl) _ s

theorem computeMaxBlocksFromMmap_range {mem : Nat → UInt8} {mbi n : Nat}
    (h : computeMaxBlocksFromMmap mem mbi = some n) :
    pmmConservativeReserveFrames ≤ n ∧ n ≤ 8192 := by
  obtain ⟨highest, _, hn⟩ := Option.map_eq_some_iff.mp h
  unfold pmmConservativeReserveFrames at *
  dsimp only at hn
  split at hn <;> split at hn <;> omega

/-- After the initialisation the counter is right, whatever the memory map says. -/
theorem pmmInitFromMmap_sound {mem : Nat → UInt8} {ptr : Nat}
    (h : boot.pmmInitFromMmap mem ptr = some s) : s.Sound := by
  unfold pmmInitFromMmap at h
  split at h
  · -- without Multiboot information nothing is in use
    obtain rfl := Option.some.inj h
    have hnone : ∀ i, Bitmap.test (fun _ => 0) i = false := fun i => by
      simp [Bitmap.test, Bitmap.bitOf]
    refine ⟨by decide, by decide, ?_⟩
    simp [boot, Bitmap.setBits, hnone]
  · simp only [Option.bind_eq_bind, Option.bind_eq_some_iff, Option.some.injEq] at h
    obtain ⟨maxBlocks, hmax, marked, hmarked, rfl⟩ := h
    have hkeep : marked.maxBlocks = maxBlocks := markMemory_maxBlocks hmarked
    obtain ⟨hlow, hhigh⟩ := computeMaxBlocksFromMmap_range hmax
    rw [← hkeep, ← reserveConservativeRegion_maxBlocks] at hlow hhigh
    exact recountUsedBlocks_sound hlow hhigh

/-! ## Allocating and freeing -/

/-- The end of the frames that `find_first_free_block` looks at: it goes by whole bytes of the
bitmap. -/
def searchEnd (s : Pmm) : Nat := s.maxBlocks / 8 * 8

theorem searchEnd_le (s : Pmm) : s.searchEnd ≤ s.maxBlocks := Nat.div_mul_le_self _ _

theorem tryFrame_eq {bit : Nat} (hlow : pmmConservativeReserveFrames ≤ bit)
    (hhigh : bit < s.maxBlocks) :
    s.tryFrame bit = if !s.testBit bit then some (some bit) else none := by
  rw [tryFrame, if_neg (Nat.not_lt.mpr hlow), if_neg (Nat.not_le.mpr hhigh)]

/-- A byte `0xFF` is skipped, as its bits are set. -/
theorem tryByte_eq {i : Nat} (hlow : pmmConservativeReserveFrames ≤ i * 8)
    (hhigh : i * 8 + 8 ≤ s.maxBlocks) :
    (if s.memoryBitmap i ≠ 0xFF then (List.range 8).findSome? fun j => s.tryFrame (i * 8 + j)
      else none) = (List.range 8).findSome? fun j =>
        if !s.testBit (i * 8 + j) then some (some (i * 8 + j)) else none := by
  have htry : ∀ j, j < 8 → s.tryFrame (i * 8 + j) =
      if !s.testBit (i * 8 + j) then some (some (i * 8 + j)) else none := fun j hj =>
    tryFrame_eq (by omega) (by omega)
  rw [← Search.findSome_congr fun j hj => htry j (List.mem_range.mp hj)]
  split
  case isTrue _ => rfl
  case isFalse hfull =>
    rw [not_not] at hfull
    refine (List.findSome?_eq_none_iff.mpr fun j hj => ?_).symm
    have hj8 := List.mem_range.mp hj
    have hset : s.testBit (i * 8 + j) = true := by
      have hbyte : (i * 8 + j) / 8 = i := by omega
      have hbit : (i * 8 + j) % 8 = j := by omega
      rw [testBit_eq, Bitmap.test, hbyte, hbit]
      exact Bitmap.eq_ff_iff.mp hfull j hj8
    rw [htry j hj8, hset]
    rfl

/-- The nested loops look for the first clear bit. -/
theorem findFirstFreeBlock_eq (s : Pmm) :
    s.findFirstFreeBlock = (List.range' pmmConservativeReserveFrames
      (s.searchEnd - pmmConservativeReserveFrames)).find? fun f => !s.testBit f := by
  have hbytes : s.findFirstFreeBlock = ((List.range' 128 (s.maxBlocks / 8 - 128)).findSome?
      fun i => (List.range 8).findSome? fun j =>
        if !s.testBit (i * 8 + j) then some (some (i * 8 + j)) else none).join := by
    refine congrArg Option.join (Search.findSome_congr fun i hi => tryByte_eq ?_ ?_)
    · have hlow : 128 ≤ i := (List.mem_range'_1.mp hi).1
      unfold pmmConservativeReserveFrames
      omega
    · have hin := List.mem_range'_1.mp hi
      omega
  have hlen : (s.maxBlocks / 8 - 128) * 8 = s.searchEnd - pmmConservativeReserveFrames := by
    unfold searchEnd pmmConservativeReserveFrames
    omega
  rw [hbytes, Search.findSome_blocks (fun f => if !s.testBit f then some (some f) else none),
    Search.findSome_guard, hlen]
  rfl

/-- `pmm_alloc_block` takes the first clear bit that it looks at. Without one it returns null
and changes nothing. -/
theorem pmmAllocBlock_spec (h : s.Sound) :
    (s.pmmAllocBlock = (s, 0) ∧ ∀ f, pmmConservativeReserveFrames ≤ f → f < s.searchEnd →
      Bitmap.test s.memoryBitmap f = true) ∨
    ∃ frame, pmmConservativeReserveFrames ≤ frame ∧ frame < s.searchEnd ∧
      Bitmap.test s.memoryBitmap frame = false ∧
      (∀ f, pmmConservativeReserveFrames ≤ f → f < frame →
        Bitmap.test s.memoryBitmap f = true) ∧
      s.pmmAllocBlock = (⟨Bitmap.setBit s.memoryBitmap frame, s.maxBlocks,
        Bitmap.setBits (Bitmap.setBit s.memoryBitmap frame) s.maxBlocks⟩, frame * pageSize) := by
  have hend := s.searchEnd_le
  have hmax := h.le_bitmap
  cases hfind : s.findFirstFreeBlock with
  | none =>
    left
    refine ⟨by simp only [pmmAllocBlock, hfind, ite_self], fun f hlow hhigh => ?_⟩
    rw [findFirstFreeBlock_eq, List.find?_range'_eq_none] at hfind
    have hset := hfind f hlow (by omega)
    rw [Bool.not_not, testBit_eq] at hset
    exact hset
  | some frame =>
    right
    have hfirst := hfind
    rw [findFirstFreeBlock_eq, List.find?_range'_eq_some, List.mem_range'_1, testBit_eq,
      Bool.not_eq_true'] at hfirst
    obtain ⟨hclear, ⟨hlow, hhigh⟩, hbelow⟩ := hfirst
    have hin : frame < s.searchEnd := by omega
    -- a clear bit keeps the counter below the number of frames
    have hcount := Bitmap.setBits_setBit (Nat.lt_of_lt_of_le hin hend) hclear
    have hle := Bitmap.setBits_le (Bitmap.setBit s.memoryBitmap frame) s.maxBlocks
    have hroom : ¬ s.usedBlocks ≥ s.maxBlocks := by
      rw [h.used]
      omega
    refine ⟨frame, hlow, hin, hclear, fun f hf hlt => ?_, ?_⟩
    · have hset := hbelow f hf hlt
      rw [Bool.not_not, testBit_eq] at hset
      exact hset
    · rw [pmmAllocBlock, if_neg hroom, hfind, hcount, ← h.used, add32,
        Nat.mod_eq_of_lt (by omega)]
      rfl

/-- `pmm_free_block` of a frame in use. -/
theorem pmmFreeBlock_spec (h : s.Sound) {frame : Nat}
    (hlow : pmmConservativeReserveFrames ≤ frame) (hhigh : frame < s.maxBlocks)
    (hset : Bitmap.test s.memoryBitmap frame = true) :
    s.pmmFreeBlock (frame * pageSize) = ⟨Bitmap.clearBit s.memoryBitmap frame, s.maxBlocks,
      Bitmap.setBits (Bitmap.clearBit s.memoryBitmap frame) s.maxBlocks⟩ := by
  have hframe : frame * pageSize / pageSize = frame := Nat.mul_div_cancel _ (by decide)
  have hcount := Bitmap.setBits_clearBit hhigh hset
  have hle := Bitmap.setBits_le s.memoryBitmap s.maxBlocks
  have hmax := h.le_bitmap
  have hused : sub32 s.usedBlocks 1 =
      Bitmap.setBits (Bitmap.clearBit s.memoryBitmap frame) s.maxBlocks := by
    rw [h.used, sub32]
    omega
  rw [pmmFreeBlock, hframe, if_neg (Nat.not_lt.mpr hlow), if_neg (Nat.not_le.mpr hhigh), hused]
  rfl

end Pmm

/-! ## Runs -/

/-- The allocator and the addresses that are handed out. -/
structure PmmState where
  pmm : Pmm
  handedOut : List Nat

inductive PmmAction
  | alloc
  | free (physicalAddress : Nat)

namespace PmmState

def step (s : PmmState) : PmmAction → PmmState
  | .alloc =>
    let (pmm, addr) := s.pmm.pmmAllocBlock
    ⟨pmm, if addr = 0 then s.handedOut else addr :: s.handedOut⟩
  | .free addr => ⟨s.pmm.pmmFreeBlock addr, s.handedOut.erase addr⟩

/-- Only addresses that are handed out are freed. -/
def Allowed (s : PmmState) : PmmAction → Prop
  | .alloc => True
  | .free addr => addr ∈ s.handedOut

end PmmState

/-- All runs after the initialisation left the state `start`. -/
def pmmRuns (start : Pmm) : TransitionSystem PmmState PmmAction where
  init := fun s => s = ⟨start, []⟩
  allowed := PmmState.Allowed
  step := PmmState.step

/-- The address of a frame that the allocator may hand out after the initialisation. -/
def Pmm.Available (start : Pmm) (addr : Nat) : Prop :=
  addr % pageSize = 0 ∧ pmmConservativeReserveFrames ≤ addr / pageSize ∧
    addr / pageSize < start.maxBlocks ∧ Bitmap.test start.memoryBitmap (addr / pageSize) = false

/-- The set bits are those that the initialisation left and those of the frames that are
handed out. -/
structure PmmInv (start : Pmm) (s : PmmState) : Prop where
  sound : s.pmm.Sound
  maxBlocks : s.pmm.maxBlocks = start.maxBlocks
  nodup : s.handedOut.Nodup
  available : ∀ addr, addr ∈ s.handedOut → start.Available addr
  bits : ∀ i, Bitmap.test s.pmm.memoryBitmap i = true ↔
    Bitmap.test start.memoryBitmap i = true ∨ i * pageSize ∈ s.handedOut

namespace PmmInv

variable {start : Pmm} {s : PmmState}

theorem init (h : start.Sound) : PmmInv start ⟨start, []⟩ :=
  ⟨h, rfl, List.nodup_nil, fun _ hmem => absurd hmem List.not_mem_nil, fun _ => by simp⟩

/-- A frame whose bit is clear is available and not handed out. -/
theorem of_clear (h : PmmInv start s) {frame : Nat} (hlow : pmmConservativeReserveFrames ≤ frame)
    (hhigh : frame < s.pmm.maxBlocks) (hclear : Bitmap.test s.pmm.memoryBitmap frame = false) :
    start.Available (frame * pageSize) ∧ frame * pageSize ∉ s.handedOut := by
  have hframe : frame * pageSize / pageSize = frame := Nat.mul_div_cancel _ (by decide)
  have hbits := (h.bits frame).not
  rw [hclear, not_or] at hbits
  obtain ⟨hstart, hout⟩ := hbits.mp (by decide)
  refine ⟨⟨Nat.mul_mod_left _ _, ?_, ?_, ?_⟩, hout⟩
  · rw [hframe]
    exact hlow
  · rw [hframe, ← h.maxBlocks]
    exact hhigh
  · rw [hframe]
    exact Bool.eq_false_iff.mpr hstart

theorem alloc (h : PmmInv start s) : PmmInv start (s.step .alloc) := by
  rcases Pmm.pmmAllocBlock_spec h.sound with ⟨hnull, _⟩ | ⟨frame, hlow, hend, hclear, _, heq⟩
  · have hstep : s.step .alloc = s := by rw [PmmState.step, hnull]; rfl
    rw [hstep]
    exact h
  · have hhigh := Nat.lt_of_lt_of_le hend s.pmm.searchEnd_le
    obtain ⟨havail, hout⟩ := h.of_clear hlow hhigh hclear
    have hne : frame * pageSize ≠ 0 := by
      unfold pageSize pmmConservativeReserveFrames at *
      omega
    simp only [PmmState.step, heq, if_neg hne]
    refine ⟨⟨h.sound.reserve_le, h.sound.le_bitmap, rfl⟩, h.maxBlocks,
      List.nodup_cons.mpr ⟨hout, h.nodup⟩, ?_, fun i => ?_⟩
    · intro addr hmem
      rcases List.mem_cons.mp hmem with rfl | hmem
      · exact havail
      · exact h.available addr hmem
    · have hpage : i * pageSize = frame * pageSize ↔ i = frame :=
        Nat.mul_left_inj (by decide)
      rw [Bitmap.test_setBit, Bool.or_eq_true, decide_eq_true_eq, h.bits i, List.mem_cons, hpage,
        or_assoc, or_comm (a := i = frame)]

theorem free (h : PmmInv start s) {addr : Nat} (hmem : addr ∈ s.handedOut) :
    PmmInv start (s.step (.free addr)) := by
  obtain ⟨halign, hlow, hhigh, hstart⟩ := h.available addr hmem
  obtain ⟨frame, rfl⟩ : ∃ frame, addr = frame * pageSize :=
    ⟨addr / pageSize, (Nat.div_mul_cancel (Nat.dvd_of_mod_eq_zero halign)).symm⟩
  rw [Nat.mul_div_cancel _ (by decide)] at hlow hhigh hstart
  have hset : Bitmap.test s.pmm.memoryBitmap frame = true := (h.bits frame).mpr (Or.inr hmem)
  have heq := Pmm.pmmFreeBlock_spec h.sound hlow (by rw [h.maxBlocks]; exact hhigh) hset
  simp only [PmmState.step, heq]
  refine ⟨⟨h.sound.reserve_le, h.sound.le_bitmap, rfl⟩, h.maxBlocks, h.nodup.erase _, ?_,
    fun i => ?_⟩
  · exact fun addr hmem => h.available addr (List.mem_of_mem_erase hmem)
  · have hpage : i * pageSize = frame * pageSize ↔ i = frame := Nat.mul_left_inj (by decide)
    rw [Bitmap.test_clearBit, Bool.and_eq_true, h.bits i, h.nodup.mem_erase_iff, Ne, hpage,
      Bool.not_eq_true', decide_eq_false_iff_not]
    constructor
    · rintro ⟨hset | hout, hne⟩
      · exact Or.inl hset
      · exact Or.inr ⟨hne, hout⟩
    · rintro (hkept | ⟨hne, hout⟩)
      · refine ⟨Or.inl hkept, ?_⟩
        rintro rfl
        rw [hkept] at hstart
        exact absurd hstart (by decide)
      · exact ⟨Or.inr hout, hne⟩

theorem reachable (hstart : start.Sound) (h : (pmmRuns start).Reachable s) : PmmInv start s := by
  refine h.invariant ?_ ?_
  · rintro s rfl
    exact init hstart
  · intro s action _ hinv hallowed
    cases action with
    | alloc => exact hinv.alloc
    | free addr => exact hinv.free hallowed

end PmmInv

/-- Frames are handed out at most once. In every state of a run after the initialisation
from any memory map, an address that `pmm_alloc_block` returns is that of a frame at or
above the reserve which the initialisation left free and which is not handed out, the
counter is the number of set bits, and `pmm_dump_info` prints the numbers of used and
free frames. -/
theorem run_pmm_safety {mem : Nat → UInt8} {ptr : Nat} {start : Pmm}
    (hinit : Pmm.boot.pmmInitFromMmap mem ptr = some start) {s : PmmState}
    (h : (pmmRuns start).Reachable s) :
    (∀ pmm addr, s.pmm.pmmAllocBlock = (pmm, addr) → addr ≠ 0 →
      addr % 4096 = 0 ∧ 1024 ≤ addr / 4096 ∧ addr / 4096 < s.pmm.maxBlocks ∧
        Bitmap.test start.memoryBitmap (addr / 4096) = false ∧ addr ∉ s.handedOut) ∧
      s.pmm.usedBlocks = Bitmap.setBits s.pmm.memoryBitmap s.pmm.maxBlocks ∧
      [.literal "\nUsed frames       : " colorWhite,
        .int (Bitmap.setBits s.pmm.memoryBitmap s.pmm.maxBlocks)] <:+: s.pmm.pmmDumpInfo ∧
      [.literal "\nFree frames       : " colorWhite,
        .int (Bitmap.clearBits s.pmm.memoryBitmap s.pmm.maxBlocks)] <:+: s.pmm.pmmDumpInfo := by
  have hinv := PmmInv.reachable (Pmm.pmmInitFromMmap_sound hinit) h
  have hused := hinv.sound.used
  have hfree : sub32 s.pmm.maxBlocks s.pmm.usedBlocks =
      Bitmap.clearBits s.pmm.memoryBitmap s.pmm.maxBlocks := by
    have hsum := Bitmap.setBits_add_clearBits s.pmm.memoryBitmap s.pmm.maxBlocks
    have hmax := hinv.sound.le_bitmap
    rw [hused, sub32]
    omega
  refine ⟨fun pmm addr halloc hne => ?_, hused, ?_, ?_⟩
  · rcases Pmm.pmmAllocBlock_spec hinv.sound with ⟨hnull, _⟩ | ⟨frame, hlow, hend, hclear, _, heq⟩
    · rw [hnull] at halloc
      exact absurd (Prod.mk.inj halloc).2.symm hne
    · rw [heq] at halloc
      have hhigh := Nat.lt_of_lt_of_le hend s.pmm.searchEnd_le
      obtain ⟨⟨halign, hreserve, hlt, hstart⟩, hout⟩ := hinv.of_clear hlow hhigh hclear
      rw [← hinv.maxBlocks] at hlt
      rw [← (Prod.mk.inj halloc).2]
      exact ⟨halign, hreserve, hlt, hstart, hout⟩
  · rw [← hused]
    exact ⟨s.pmm.pmmDumpInfo.take 3, s.pmm.pmmDumpInfo.drop 5, rfl⟩
  · rw [← hfree]
    exact ⟨s.pmm.pmmDumpInfo.take 5, s.pmm.pmmDumpInfo.drop 7, rfl⟩

/-! ### A run -/

/-- Multiboot information at the address 0x1000 with one region of eight free frames at
4 MB. -/
def sampleMultiboot : Nat → UInt8 :=
  let mem := LittleEndian.store (fun _ => 0) 4 0x1000 64
  let mem := LittleEndian.store mem 4 (0x1000 + 44) 24
  let mem := LittleEndian.store mem 4 (0x1000 + 48) 0x2000
  let mem := LittleEndian.store mem 4 0x2000 20
  let mem := LittleEndian.store mem 4 (0x2000 + 4) 0x400000
  let mem := LittleEndian.store mem 4 (0x2000 + 12) 0x8000
  LittleEndian.store mem 4 (0x2000 + 20) 1

theorem sampleMultiboot_ends :
    (Pmm.boot.pmmInitFromMmap sampleMultiboot 0x1000).isSome = true := by decide +kernel

/-- The state that the initialisation leaves: 1032 frames, of which eight are free. -/
def samplePmm : Pmm := (Pmm.boot.pmmInitFromMmap sampleMultiboot 0x1000).get sampleMultiboot_ends

theorem samplePmm_init : Pmm.boot.pmmInitFromMmap sampleMultiboot 0x1000 = some samplePmm :=
  (Option.some_get sampleMultiboot_ends).symm

/-- 1032 frames are tracked, and the second allocation does not return the frame of the
first. -/
theorem run_pmm_safety_sample :
    samplePmm.maxBlocks = 1032 ∧
      ∃ s, s = (⟨samplePmm, []⟩ : PmmState).step .alloc ∧
        s.pmm.usedBlocks = Bitmap.setBits s.pmm.memoryBitmap s.pmm.maxBlocks ∧
        ∀ pmm addr, s.pmm.pmmAllocBlock = (pmm, addr) → addr ≠ 0 → addr ∉ s.handedOut := by
  have hinit : (pmmRuns samplePmm).Reachable ⟨samplePmm, []⟩ := .init rfl
  have hreachable : (pmmRuns samplePmm).Reachable ((⟨samplePmm, []⟩ : PmmState).step .alloc) :=
    hinit.step (a := PmmAction.alloc) trivial
  obtain ⟨halloc, hused, _⟩ := run_pmm_safety samplePmm_init hreachable
  refine ⟨by decide +kernel, _, rfl, hused, fun pmm addr hcall hne => ?_⟩
  exact (halloc pmm addr hcall hne).2.2.2.2

end Newrex
