import Newrex.Pmm.Usable

/-!
# Which frames can be allocated

`find_first_free_block` goes by whole bytes of the bitmap, so that the frames in a last byte that
is not full are never found. `pmm_dump_info` reports them as free all the same, like every clear
bit below `max_blocks`.

* `allocRun_free`: when the free frames are among those that are looked at, as many allocations
  as frames are reported free succeed, and no more;
* `Complete.searched`: and only then;
* `pmm_alloc_complete_iff` is the result for all runs, and `searched_of_aligned` names the usual
  case.
-/

namespace Newrex

namespace Pmm

variable {s : Pmm} {f n : Nat}

/-- `n` calls of `pmm_alloc_block`, one after the other. -/
def allocRun : Nat → Pmm → Pmm
  | 0, s => s
  | n + 1, s => allocRun n s.pmmAllocBlock.1

/-- The number that `pmm_dump_info` prints as that of the free frames. -/
def freeFrames (s : Pmm) : Nat := sub32 s.maxBlocks s.usedBlocks

/-- `pmm_alloc_block` returns null when no frame above the reserve is free, and the lowest free
one otherwise. As many frames can be allocated as are reported free. -/
structure Complete (s : Pmm) : Prop where
  null : s.pmmAllocBlock.2 = 0 ↔
    ∀ f, pmmConservativeReserveFrames ≤ f → f < s.maxBlocks → s.testBit f = true
  lowest : s.pmmAllocBlock.2 ≠ 0 → ∃ f, s.pmmAllocBlock.2 = f * pageSize ∧
    pmmConservativeReserveFrames ≤ f ∧ f < s.maxBlocks ∧ s.testBit f = false ∧
    ∀ g, pmmConservativeReserveFrames ≤ g → g < f → s.testBit g = true
  count : (∀ i, i < s.freeFrames → (allocRun i s).pmmAllocBlock.2 ≠ 0) ∧
    (allocRun s.freeFrames s).pmmAllocBlock.2 = 0

/-- Every free frame is one that `find_first_free_block` looks at. -/
def Searched (s : Pmm) : Prop :=
  ∀ f, f < s.maxBlocks → s.testBit f = false →
    pmmConservativeReserveFrames ≤ f ∧ f < s.searchEnd

/-! ## One allocation -/

theorem frame_ne_zero (h : pmmConservativeReserveFrames ≤ f) : f * pageSize ≠ 0 :=
  Nat.mul_ne_zero (Nat.ne_of_gt (Nat.lt_of_lt_of_le (by decide) h)) (by decide)

theorem freeFrames_eq (h : s.Sound) :
    s.freeFrames = Bitmap.clearBits s.memoryBitmap s.maxBlocks := by
  have hsum := Bitmap.setBits_add_clearBits s.memoryBitmap s.maxBlocks
  have hmax := h.le_bitmap
  rw [freeFrames, h.used, sub32]
  omega

/-- An allocation keeps the counter right, and sets at most one bit, one that is looked at. -/
theorem Sound.alloc (h : s.Sound) :
    s.pmmAllocBlock.1.Sound ∧ s.pmmAllocBlock.1.maxBlocks = s.maxBlocks ∧
      (∀ g, s.testBit g = true → s.pmmAllocBlock.1.testBit g = true) ∧
      (∀ g, ¬ (pmmConservativeReserveFrames ≤ g ∧ g < s.searchEnd) →
        s.pmmAllocBlock.1.testBit g = s.testBit g) ∧
      (s.pmmAllocBlock.2 ≠ 0 →
        Bitmap.clearBits s.pmmAllocBlock.1.memoryBitmap s.maxBlocks + 1 =
          Bitmap.clearBits s.memoryBitmap s.maxBlocks) := by
  rcases pmmAllocBlock_spec h with ⟨hnull, _⟩ | ⟨frame, hlow, hend, hclear, _, heq⟩
  · rw [hnull]
    exact ⟨h, rfl, fun _ hg => hg, fun _ _ => rfl, fun hne => absurd rfl hne⟩
  · have hin := Nat.lt_of_lt_of_le hend s.searchEnd_le
    have hcount := Bitmap.setBits_setBit hin hclear
    have hsum := Bitmap.setBits_add_clearBits s.memoryBitmap s.maxBlocks
    have hsum' := Bitmap.setBits_add_clearBits (Bitmap.setBit s.memoryBitmap frame) s.maxBlocks
    rw [heq]
    refine ⟨⟨h.reserve_le, h.le_bitmap, rfl⟩, rfl, fun g hg => ?_, fun g hg => ?_, fun _ => ?_⟩
    · rw [testBit_eq] at hg ⊢
      rw [Bitmap.test_setBit, hg, Bool.true_or]
    · have hne : g ≠ frame := fun heq => hg (heq ▸ ⟨hlow, hend⟩)
      rw [testBit_eq, testBit_eq, Bitmap.test_setBit, decide_eq_false hne, Bool.or_false]
    · show Bitmap.clearBits (Bitmap.setBit s.memoryBitmap frame) s.maxBlocks + 1 = _
      omega

/-- Null is returned exactly when no frame that is looked at is free. -/
theorem pmmAllocBlock_eq_zero_iff (h : s.Sound) :
    s.pmmAllocBlock.2 = 0 ↔
      ∀ f, pmmConservativeReserveFrames ≤ f → f < s.searchEnd → s.testBit f = true := by
  rcases pmmAllocBlock_spec h with ⟨hnull, hset⟩ | ⟨frame, hlow, hend, hclear, _, heq⟩
  · rw [hnull]
    simp only [testBit_eq, true_iff]
    exact hset
  · rw [heq]
    refine ⟨fun h0 => absurd h0 (frame_ne_zero hlow), fun hset => ?_⟩
    have hset' := hset frame hlow hend
    rw [testBit_eq, hclear] at hset'
    cases hset'

/-- The frame of an address that is returned. It is the only one whose bit changes. -/
theorem pmmAllocBlock_lowest (h : s.Sound) (hne : s.pmmAllocBlock.2 ≠ 0) :
    ∃ f, s.pmmAllocBlock.2 = f * pageSize ∧ pmmConservativeReserveFrames ≤ f ∧
      f < s.searchEnd ∧ s.testBit f = false ∧
      (∀ g, s.pmmAllocBlock.1.testBit g = (s.testBit g || decide (g = f))) ∧
      ∀ g, pmmConservativeReserveFrames ≤ g → g < f → s.testBit g = true := by
  rcases pmmAllocBlock_spec h with ⟨hnull, _⟩ | ⟨frame, hlow, hend, hclear, hbelow, heq⟩
  · rw [hnull] at hne
    exact absurd rfl hne
  · rw [heq]
    simp only [testBit_eq]
    exact ⟨frame, rfl, hlow, hend, hclear, fun g => Bitmap.test_setBit g, hbelow⟩

/-! ## Allocating until nothing is left -/

theorem Searched.alloc (h : s.Sound) (hs : s.Searched) : s.pmmAllocBlock.1.Searched := by
  obtain ⟨_, hmax, hset, _, _⟩ := h.alloc
  intro f hf hclear
  rw [searchEnd, hmax] at *
  refine hs f hf ?_
  by_contra hne
  rw [hset f (Bool.not_eq_false _ ▸ hne)] at hclear
  cases hclear

/-- A frame that is free and looked at keeps `pmm_alloc_block` from returning null. -/
theorem alloc_of_clear (h : s.Sound) (hs : s.Searched) (hf : f < s.maxBlocks)
    (hclear : s.testBit f = false) : s.pmmAllocBlock.2 ≠ 0 := by
  intro h0
  obtain ⟨hlow, hend⟩ := hs f hf hclear
  rw [(pmmAllocBlock_eq_zero_iff h).mp h0 f hlow hend] at hclear
  cases hclear

/-- When all free frames are looked at, each of them is allocated in turn. -/
theorem allocRun_free (h : s.Sound) (hs : s.Searched)
    (hn : Bitmap.clearBits s.memoryBitmap s.maxBlocks = n) :
    (∀ i, i < n → (allocRun i s).pmmAllocBlock.2 ≠ 0) ∧ (allocRun n s).pmmAllocBlock.2 = 0 := by
  induction n generalizing s with
  | zero =>
    refine ⟨fun i hi => absurd hi (Nat.not_lt_zero i), ?_⟩
    refine (pmmAllocBlock_eq_zero_iff h).mpr fun f _ hend => ?_
    rw [testBit_eq]
    exact Bitmap.clearBits_eq_zero.mp hn f (Nat.lt_of_lt_of_le hend s.searchEnd_le)
  | succ n ih =>
    obtain ⟨f, hf, hclear⟩ : ∃ f, f < s.maxBlocks ∧ s.testBit f = false := by
      by_contra hnone
      have hzero : Bitmap.clearBits s.memoryBitmap s.maxBlocks = 0 := by
        refine Bitmap.clearBits_eq_zero.mpr fun f hf => ?_
        rw [← testBit_eq]
        by_contra hclear
        exact hnone ⟨f, hf, Bool.eq_false_iff.mpr hclear⟩
      omega
    have hne := alloc_of_clear h hs hf hclear
    obtain ⟨hsound, hmax, _, _, hcount⟩ := h.alloc
    obtain ⟨hmore, hlast⟩ := ih hsound (Searched.alloc h hs) (by
      have hone := hcount hne
      rw [hmax]
      omega)
    refine ⟨fun i hi => ?_, hlast⟩
    cases i with
    | zero => exact hne
    | succ i => exact hmore i (Nat.lt_of_succ_lt_succ hi)

/-- Allocations that succeed use up the free frames. The other bits are as before. -/
theorem allocRun_count (h : s.Sound) (hall : ∀ i, i < n → (allocRun i s).pmmAllocBlock.2 ≠ 0) :
    Bitmap.clearBits (allocRun n s).memoryBitmap s.maxBlocks + n =
        Bitmap.clearBits s.memoryBitmap s.maxBlocks ∧
      ∀ g, ¬ (pmmConservativeReserveFrames ≤ g ∧ g < s.searchEnd) →
        (allocRun n s).testBit g = s.testBit g := by
  induction n generalizing s with
  | zero => exact ⟨rfl, fun _ _ => rfl⟩
  | succ n ih =>
    obtain ⟨hsound, hmax, _, hsame, hcount⟩ := h.alloc
    obtain ⟨hrest, hbits⟩ := ih hsound fun i hi => hall (i + 1) (Nat.succ_lt_succ hi)
    have hone := hcount (hall 0 (Nat.succ_pos n))
    rw [hmax] at hrest
    rw [searchEnd, hmax] at hbits
    refine ⟨?_, fun g hg => (hbits g hg).trans (hsame g hg)⟩
    show Bitmap.clearBits (allocRun n s.pmmAllocBlock.1).memoryBitmap s.maxBlocks + (n + 1) = _
    omega

theorem Searched.complete (h : s.Sound) (hs : s.Searched) : s.Complete where
  null := by
    constructor
    · intro h0 f hlow hf
      by_contra hclear
      exact alloc_of_clear h hs hf (Bool.eq_false_iff.mpr hclear) h0
    · intro hset
      exact (pmmAllocBlock_eq_zero_iff h).mpr fun f hlow hend =>
        hset f hlow (Nat.lt_of_lt_of_le hend s.searchEnd_le)
  lowest := by
    intro hne
    obtain ⟨f, heq, hlow, hend, hclear, _, hbelow⟩ := pmmAllocBlock_lowest h hne
    exact ⟨f, heq, hlow, Nat.lt_of_lt_of_le hend s.searchEnd_le, hclear, hbelow⟩
  count := by
    rw [freeFrames_eq h]
    exact allocRun_free h hs rfl

/-- A free frame that is not looked at is reported, but never allocated. -/
theorem Complete.searched (h : s.Sound) (hc : s.Complete) : s.Searched := by
  intro f hf hclear
  by_contra hout
  have hcount := hc.count.1
  rw [freeFrames_eq h] at hcount
  obtain ⟨hsum, hsame⟩ := allocRun_count h hcount
  have hzero : Bitmap.clearBits (allocRun _ s).memoryBitmap s.maxBlocks = 0 :=
    Nat.add_eq_right.mp hsum
  have hstill := hsame f hout
  rw [testBit_eq, Bitmap.clearBits_eq_zero.mp hzero f hf, hclear] at hstill
  cases hstill

/-- With Multiboot information the reserve is in use, so that a number of frames that fills its
last byte is enough. -/
theorem searched_of_aligned {mem : Nat → UInt8} {mbi : Nat} (hmbi : mbi ≠ 0)
    (h : boot.pmmInitFromMmap mem mbi = some s) (haligned : s.maxBlocks % 8 = 0) :
    s.Searched := by
  rw [pmmInitFromMmap, if_neg hmbi] at h
  simp only [Option.bind_eq_bind, Option.bind_eq_some_iff, Option.some.injEq] at h
  obtain ⟨_, _, marked, _, rfl⟩ := h
  intro f hf hclear
  constructor
  · by_contra hlow
    have hkeep : marked.reserveConservativeRegion.maxBlocks = marked.maxBlocks :=
      reserveConservativeRegion_maxBlocks marked
    have hbit : marked.reserveConservativeRegion.testBit f = false := hclear
    have hmax : f < marked.maxBlocks := hkeep ▸ hf
    rw [test_reserve, if_pos (by omega)] at hbit
    cases hbit
  · unfold searchEnd
    omega

end Pmm

/-- What the initialisation left free decides for all runs: the frames that are free later are
among those. -/
theorem PmmInv.searched {start : Pmm} {s : PmmState} (h : PmmInv start s) (hs : start.Searched) :
    s.pmm.Searched := by
  intro f hf hclear
  rw [Pmm.searchEnd, h.maxBlocks] at *
  refine hs f hf ?_
  rw [Pmm.testBit_eq] at hclear ⊢
  by_contra hset
  rw [(h.bits f).mpr (Or.inl (Bool.eq_true_of_not_eq_false hset))] at hclear
  cases hclear

/-- Completeness of the allocation. After the initialisation from any Multiboot information,
`pmm_alloc_block` is complete in every state of every run if and only if each frame that the
initialisation left free is one that `find_first_free_block` looks at. -/
theorem pmm_alloc_complete_iff {mem : Nat → UInt8} {ptr : Nat} {start : Pmm}
    (hinit : Pmm.boot.pmmInitFromMmap mem ptr = some start) :
    (∀ s, (pmmRuns start).Reachable s → s.pmm.Complete) ↔ start.Searched := by
  have hsound := Pmm.pmmInitFromMmap_sound hinit
  constructor
  · intro hall
    exact (hall ⟨start, []⟩ (.init rfl)).searched hsound
  · intro hs s hreach
    have hinv := PmmInv.reachable hsound hreach
    exact (hinv.searched hs).complete hinv.sound

/-- The eight free frames of `samplePmm` can all be allocated. -/
theorem pmm_alloc_complete_sample : samplePmm.maxBlocks = 1032 ∧ samplePmm.Complete := by
  have hmax : samplePmm.maxBlocks = 1032 := by decide +kernel
  have hsearched : samplePmm.Searched :=
    Pmm.searched_of_aligned (by decide) samplePmm_init (by rw [hmax])
  have hall := (pmm_alloc_complete_iff samplePmm_init).mpr hsearched
  generalize samplePmm = start at hmax hall ⊢
  exact ⟨hmax, hall ⟨start, []⟩ (.init rfl)⟩

/-- Multiboot information with one region of nine free frames at 4 MB. -/
def oddMultiboot : Nat → UInt8 := LittleEndian.store sampleMultiboot 4 (0x2000 + 12) 0x9000

theorem oddMultiboot_ends :
    (Pmm.boot.pmmInitFromMmap oddMultiboot 0x1000).isSome = true := by decide +kernel

/-- The state that the initialisation leaves: 1033 frames, the last of which is alone in its
byte of the bitmap. -/
def oddPmm : Pmm := (Pmm.boot.pmmInitFromMmap oddMultiboot 0x1000).get oddMultiboot_ends

/-- Nine frames are reported free, and the last one cannot be allocated. -/
theorem last_frame_lost : ¬ ∀ (mem : Nat → UInt8) (ptr : Nat) (start : Pmm),
    Pmm.boot.pmmInitFromMmap mem ptr = some start →
    ∀ s, (pmmRuns start).Reachable s → s.pmm.Complete := by
  intro hall
  have hinit : Pmm.boot.pmmInitFromMmap oddMultiboot 0x1000 = some oddPmm :=
    (Option.some_get oddMultiboot_ends).symm
  have hcomplete := hall _ _ _ hinit ⟨oddPmm, []⟩ (.init rfl)
  have hsearched := hcomplete.searched (Pmm.pmmInitFromMmap_sound hinit)
  have hlast := (hsearched 1032 (by decide +kernel) (by decide +kernel)).2
  exact absurd hlast (by decide +kernel)

end Newrex
