import Newrex.Pmm.Complete

/-!
# Frees of any address

`pmm_free_block` tests only that the frame is tracked and above the reserve. A frame that is
free already makes the counter too small, and one that the initialisation marked as unavailable
is handed out later.

* `FreeFits`: the frees that do no harm;
* `Kept.free` and `Kept.alloc`: what such a step preserves;
* `free_counter` and `allocRun_reaches`: what any other one breaks;
* `pmm_stray_frees_iff` is the result for all runs.
-/

namespace Newrex

namespace Pmm

variable {start s : Pmm} {f n addr : Nat} {acts : List PmmAction}

/-- One call. -/
def act (s : Pmm) : PmmAction → Pmm
  | .alloc => s.pmmAllocBlock.1
  | .free addr => s.pmmFreeBlock addr

/-- The counter is the number of set bits and has not wrapped around, and no frame that the
initialisation marked as unavailable is returned, now or by the allocations that follow. -/
structure Intact (start s : Pmm) : Prop where
  counter : s.usedBlocks = Bitmap.setBits s.memoryBitmap s.maxBlocks
  bounded : s.usedBlocks ≤ s.maxBlocks
  reserved : ∀ n, (allocRun n s).pmmAllocBlock.2 ≠ 0 →
    start.testBit ((allocRun n s).pmmAllocBlock.2 / pageSize) = false

/-- Every state of the run is intact. -/
def IntactThroughout (start : Pmm) (acts : List PmmAction) : Prop :=
  ∀ pre, pre <+: acts → Intact start (pre.foldl act start)

/-- The free of `addr` is refused by the test of the range, or the frame is in use and was
available after the initialisation. Frames that are not looked at may have been unavailable. -/
def FreeFits (start s : Pmm) (addr : Nat) : Prop :=
  addr / pageSize < pmmConservativeReserveFrames ∨ s.maxBlocks ≤ addr / pageSize ∨
    s.testBit (addr / pageSize) = true ∧
      (start.testBit (addr / pageSize) = false ∨ s.searchEnd ≤ addr / pageSize)

/-- Every free of the run fits the state it is made in. -/
def FreesFit (start : Pmm) (acts : List PmmAction) : Prop :=
  ∀ pre addr, pre ++ [PmmAction.free addr] <+: acts → FreeFits start (pre.foldl act start) addr

/-- What the steps of a run preserve: the counter is right, and the free frames that are looked
at were available after the initialisation. -/
structure Kept (start s : Pmm) : Prop where
  sound : s.Sound
  available : ∀ f, pmmConservativeReserveFrames ≤ f → f < s.searchEnd → s.testBit f = false →
    start.testBit f = false

/-! ## Steps that fit -/

theorem Kept.alloc (h : Kept start s) : Kept start s.pmmAllocBlock.1 := by
  obtain ⟨hsound, hmax, hset, _, _⟩ := h.sound.alloc
  refine ⟨hsound, fun f hlow hend hclear => ?_⟩
  rw [searchEnd, hmax] at hend
  refine h.available f hlow hend ?_
  by_contra hused
  rw [hset f (Bool.eq_true_of_not_eq_false hused)] at hclear
  cases hclear

/-- A free inside the range clears the bit of the frame, wherever in the frame the address
lies. -/
theorem pmmFreeBlock_eq (hlow : pmmConservativeReserveFrames ≤ addr / pageSize)
    (hhigh : addr / pageSize < s.maxBlocks) :
    s.pmmFreeBlock addr =
      { s.clearBit (addr / pageSize) with usedBlocks := sub32 s.usedBlocks 1 } := by
  rw [pmmFreeBlock, if_neg (Nat.not_lt.mpr hlow), if_neg (Nat.not_le.mpr hhigh)]

theorem pmmFreeBlock_refused
    (h : addr / pageSize < pmmConservativeReserveFrames ∨ s.maxBlocks ≤ addr / pageSize) :
    s.pmmFreeBlock addr = s := by
  rw [pmmFreeBlock]
  split
  case isTrue _ => rfl
  case isFalse hlow => exact if_pos (h.resolve_left hlow)

/-- A free of a frame in use keeps the counter right. -/
theorem Sound.free (h : s.Sound) (hlow : pmmConservativeReserveFrames ≤ addr / pageSize)
    (hhigh : addr / pageSize < s.maxBlocks) (hset : s.testBit (addr / pageSize) = true) :
    (s.pmmFreeBlock addr).Sound ∧ (s.pmmFreeBlock addr).maxBlocks = s.maxBlocks ∧
      ∀ g, (s.pmmFreeBlock addr).testBit g = (s.testBit g && !decide (g = addr / pageSize)) := by
  have hframe := pmmFreeBlock_spec h hlow hhigh (by rw [← testBit_eq]; exact hset)
  have haligned : s.pmmFreeBlock addr = s.pmmFreeBlock (addr / pageSize * pageSize) := by
    rw [pmmFreeBlock_eq hlow hhigh, pmmFreeBlock_eq] <;>
      rw [Nat.mul_div_cancel _ (by decide)] <;> assumption
  rw [haligned, hframe]
  refine ⟨⟨h.reserve_le, h.le_bitmap, rfl⟩, rfl, fun g => ?_⟩
  rw [testBit_eq, testBit_eq]
  exact Bitmap.test_clearBit g

theorem Kept.free (h : Kept start s) (hfits : FreeFits start s addr) :
    Kept start (s.pmmFreeBlock addr) := by
  by_cases hrange : addr / pageSize < pmmConservativeReserveFrames ∨
      s.maxBlocks ≤ addr / pageSize
  · rw [pmmFreeBlock_refused hrange]
    exact h
  obtain ⟨hlow, hhigh⟩ := not_or.mp hrange
  rw [Nat.not_lt] at hlow
  rw [Nat.not_le] at hhigh
  rcases hfits with hout | hout | ⟨hset, havail⟩
  · exact absurd hout (Nat.not_lt.mpr hlow)
  · exact absurd hout (Nat.not_le.mpr hhigh)
  obtain ⟨hsound, hmax, hbits⟩ := h.sound.free hlow hhigh hset
  refine ⟨hsound, fun f hf hend hclear => ?_⟩
  rw [searchEnd, hmax] at hend
  rw [hbits, Bool.and_eq_false_iff, Bool.not_eq_false', decide_eq_true_eq] at hclear
  rcases hclear with hold | rfl
  · exact h.available f hf hend hold
  · exact havail.resolve_right (Nat.not_le.mpr hend)

theorem Kept.allocRun (h : Kept start s) (n : Nat) : Kept start (Pmm.allocRun n s) := by
  induction n generalizing s with
  | zero => exact h
  | succ n ih => exact ih h.alloc

theorem Kept.intact (h : Kept start s) : Intact start s where
  counter := h.sound.used
  bounded := by
    rw [h.sound.used]
    exact Bitmap.setBits_le _ _
  reserved := by
    intro n hne
    have hn := h.allocRun n
    obtain ⟨f, heq, hlow, hend, hclear, _⟩ := pmmAllocBlock_lowest hn.sound hne
    rw [heq, Nat.mul_div_cancel _ (by decide)]
    exact hn.available f hlow hend hclear

/-! ## Steps that do not fit -/

/-- A free of a frame that is free already makes the counter wrong. -/
theorem free_counter (h : s.Sound) (hlow : pmmConservativeReserveFrames ≤ addr / pageSize)
    (hhigh : addr / pageSize < s.maxBlocks) (hclear : s.testBit (addr / pageSize) = false) :
    (s.pmmFreeBlock addr).usedBlocks ≠
      Bitmap.setBits (s.pmmFreeBlock addr).memoryBitmap (s.pmmFreeBlock addr).maxBlocks := by
  have hagain : ∀ g, Bitmap.test (Bitmap.clearBit s.memoryBitmap (addr / pageSize)) g =
      Bitmap.test s.memoryBitmap g := by
    intro g
    rw [Bitmap.test_clearBit]
    by_cases hg : g = addr / pageSize
    · rw [hg, ← testBit_eq, hclear, Bool.false_and]
    · rw [decide_eq_false hg, Bool.not_false, Bool.and_true]
  have hsame : Bitmap.setBits (s.clearBit (addr / pageSize)).memoryBitmap s.maxBlocks =
      s.usedBlocks := by
    rw [h.used]
    show Nat.count (fun g => Bitmap.test (Bitmap.clearBit _ _) g = true) _ = _
    simp only [hagain]
    rfl
  have hle := Bitmap.setBits_le s.memoryBitmap s.maxBlocks
  have hmax := h.le_bitmap
  rw [pmmFreeBlock_eq hlow hhigh]
  show sub32 s.usedBlocks 1 ≠ Bitmap.setBits (s.clearBit (addr / pageSize)).memoryBitmap s.maxBlocks
  rw [hsame, sub32]
  have hused := h.used
  omega

theorem free_not_intact (h : start.Sound) (hlow : pmmConservativeReserveFrames ≤ addr / pageSize)
    (hhigh : addr / pageSize < start.maxBlocks)
    (hclear : start.testBit (addr / pageSize) = false) :
    ¬ IntactThroughout start [.free addr] := fun hall =>
  free_counter h hlow hhigh hclear (hall _ (List.prefix_refl _)).counter

/-- A free frame that is looked at is returned sooner or later. The induction is on the number
of free frames, as the allocations before take lower ones. -/
theorem allocRun_reaches (h : s.Sound) (hlow : pmmConservativeReserveFrames ≤ f)
    (hend : f < s.searchEnd) (hclear : s.testBit f = false) :
    ∃ n, (allocRun n s).pmmAllocBlock.2 = f * pageSize := by
  induction hn : Bitmap.clearBits s.memoryBitmap s.maxBlocks generalizing s with
  | zero =>
    have hset := Bitmap.clearBits_eq_zero.mp hn f (Nat.lt_of_lt_of_le hend s.searchEnd_le)
    rw [← testBit_eq, hclear] at hset
    cases hset
  | succ n ih =>
    have hne : s.pmmAllocBlock.2 ≠ 0 := by
      intro h0
      rw [(pmmAllocBlock_eq_zero_iff h).mp h0 f hlow hend] at hclear
      cases hclear
    obtain ⟨g, heq, _, _, _, hbits, _⟩ := pmmAllocBlock_lowest h hne
    by_cases hfg : f = g
    · exact ⟨0, by rw [hfg]; exact heq⟩
    · obtain ⟨hsound, hmax, _, _, hcount⟩ := h.alloc
      have hone := hcount hne
      have hstill : s.pmmAllocBlock.1.testBit f = false := by
        rw [hbits, hclear, decide_eq_false hfg, Bool.or_false]
      obtain ⟨k, hk⟩ := ih hsound (by rw [searchEnd, hmax]; exact hend) hstill (by
        rw [hmax]
        omega)
      exact ⟨k + 1, hk⟩

/-- The frame right above the reserve is the first to be returned. -/
theorem testBit_alloc (h : s.Sound) (hend : pmmConservativeReserveFrames < s.searchEnd)
    (hclear : s.testBit pmmConservativeReserveFrames = false) :
    s.pmmAllocBlock.1.testBit pmmConservativeReserveFrames = true := by
  have hne : s.pmmAllocBlock.2 ≠ 0 := by
    intro h0
    rw [(pmmAllocBlock_eq_zero_iff h).mp h0 _ (Nat.le_refl _) hend] at hclear
    cases hclear
  obtain ⟨f, _, hlow, _, _, hbits, hbelow⟩ := pmmAllocBlock_lowest h hne
  rcases Nat.lt_or_eq_of_le hlow with hlt | rfl
  · rw [hbelow _ (Nat.le_refl _) hlt] at hclear
    cases hclear
  · rw [hbits, decide_eq_true rfl, Bool.or_true]

/-- When the state after a free is intact, the free was one that fits. -/
theorem Intact.freeFits (h : Kept start s) (hafter : Intact start (s.pmmFreeBlock addr)) :
    FreeFits start s addr := by
  by_contra hnot
  obtain ⟨hlow, hnot⟩ := not_or.mp hnot
  obtain ⟨hhigh, hnot⟩ := not_or.mp hnot
  rw [Nat.not_lt] at hlow
  rw [Nat.not_le] at hhigh
  cases hset : s.testBit (addr / pageSize) with
  | false => exact free_counter h.sound hlow hhigh hset hafter.counter
  | true =>
    obtain ⟨hused, hend⟩ := not_or.mp fun hor => hnot ⟨hset, hor⟩
    -- the frame is free now, so that some later allocation returns it
    obtain ⟨hsound, hmax, hbits⟩ := h.sound.free hlow hhigh hset
    have hclear : (s.pmmFreeBlock addr).testBit (addr / pageSize) = false := by
      rw [hbits, decide_eq_true rfl, Bool.not_true, Bool.and_false]
    rw [Nat.not_le] at hend
    obtain ⟨n, hn⟩ := allocRun_reaches hsound hlow (by rw [searchEnd, hmax]; exact hend) hclear
    have havail := hafter.reserved n (by rw [hn]; exact frame_ne_zero hlow)
    rw [hn, Nat.mul_div_cancel _ (by decide)] at havail
    exact hused havail

/-! ## Whole runs -/

theorem Kept.act {a : PmmAction} (h : Kept start s)
    (hfits : ∀ addr, a = .free addr → FreeFits start s addr) : Kept start (s.act a) := by
  cases a with
  | alloc => exact h.alloc
  | free addr => exact h.free (hfits addr rfl)

theorem freesFit_nil : FreesFit start [] := fun _ _ hpre =>
  absurd (List.prefix_nil.mp hpre) (List.append_ne_nil_of_right_ne_nil _ (List.cons_ne_nil _ _))

/-- A run with one more action consists of the run before it and of that action. -/
theorem freesFit_append {a : PmmAction} :
    FreesFit start (acts ++ [a]) ↔ FreesFit start acts ∧
      ∀ addr, a = .free addr → FreeFits start (acts.foldl Pmm.act start) addr := by
  constructor
  · intro h
    refine ⟨fun pre addr hpre => h pre addr (hpre.trans (List.prefix_append _ _)), ?_⟩
    rintro addr rfl
    exact h acts addr (List.prefix_refl _)
  · rintro ⟨hacts, hlast⟩ pre addr hpre
    rcases List.prefix_concat_iff.mp hpre with heq | hshort
    · obtain ⟨rfl, hone⟩ := List.append_inj' heq rfl
      exact hlast addr (List.singleton_inj.mp hone).symm
    · exact hacts pre addr hshort

theorem kept_of_freesFit (hstart : Kept start start) (h : FreesFit start acts) :
    Kept start (acts.foldl act start) := by
  induction acts using List.reverseRecOn with
  | nil => exact hstart
  | append_singleton acts a ih =>
    obtain ⟨hacts, hlast⟩ := freesFit_append.mp h
    rw [List.foldl_append]
    exact (ih hacts).act hlast

theorem FreesFit.intactThroughout (hstart : Kept start start) (h : FreesFit start acts) :
    IntactThroughout start acts := fun _ hpre =>
  (kept_of_freesFit hstart fun pre' addr hpre' => h pre' addr (hpre'.trans hpre)).intact

theorem IntactThroughout.freesFit (hstart : Kept start start)
    (h : IntactThroughout start acts) : FreesFit start acts := by
  induction acts using List.reverseRecOn with
  | nil => exact freesFit_nil
  | append_singleton acts a ih =>
    have hacts := ih fun pre hpre => h pre (hpre.trans (List.prefix_append _ _))
    refine freesFit_append.mpr ⟨hacts, ?_⟩
    rintro addr rfl
    have hlast := h _ (List.prefix_refl _)
    rw [List.foldl_append] at hlast
    exact Intact.freeFits (kept_of_freesFit hstart hacts) hlast

theorem kept_self (h : start.Sound) : Kept start start := ⟨h, fun _ _ _ hclear => hclear⟩

/-- The frame right above the reserve is allocated, freed and allocated again. -/
theorem freesFit_first (h : start.Sound) (hframe : addr / pageSize = pmmConservativeReserveFrames)
    (hend : pmmConservativeReserveFrames < start.searchEnd)
    (hclear : start.testBit pmmConservativeReserveFrames = false) :
    FreesFit start [.alloc, .free addr, .alloc] := by
  have hone : FreesFit start ([] ++ [.alloc]) :=
    freesFit_append.mpr ⟨freesFit_nil, fun _ hact => by cases hact⟩
  have htwo : FreesFit start ([.alloc] ++ [.free addr]) := by
    refine freesFit_append.mpr ⟨hone, fun addr' hact => ?_⟩
    cases hact
    rw [FreeFits, hframe]
    exact Or.inr (Or.inr ⟨testBit_alloc h hend hclear, Or.inl hclear⟩)
  exact freesFit_append.mpr ⟨htwo, fun _ hact => by cases hact⟩

end Pmm

/-- Frees of arbitrary addresses. After the initialisation from any Multiboot information, every
state of a run of allocations and frees is intact if and only if each free of the run that is not
refused hits a frame in use that the initialisation left available, or one that is never looked
at. -/
theorem pmm_stray_frees_iff {mem : Nat → UInt8} {ptr : Nat} {start : Pmm}
    (hinit : Pmm.boot.pmmInitFromMmap mem ptr = some start) (acts : List PmmAction) :
    Pmm.IntactThroughout start acts ↔ Pmm.FreesFit start acts := by
  have hstart := Pmm.kept_self (Pmm.pmmInitFromMmap_sound hinit)
  exact ⟨fun h => h.freesFit hstart, fun h => h.intactThroughout hstart⟩

/-- The frame that the allocation of `samplePmm` returns is freed, and allocated again. -/
theorem pmm_stray_frees_sample :
    Pmm.IntactThroughout samplePmm [.alloc, .free (1024 * 4096), .alloc] := by
  refine (pmm_stray_frees_iff samplePmm_init _).mpr ?_
  have hsound := Pmm.pmmInitFromMmap_sound samplePmm_init
  have hend : pmmConservativeReserveFrames < samplePmm.searchEnd := by decide +kernel
  have hclear : samplePmm.testBit pmmConservativeReserveFrames = false := by decide +kernel
  exact Pmm.freesFit_first hsound (by decide) hend hclear

/-- A frame that was never allocated is freed, and the counter is one too small. -/
theorem stray_free_counter : ¬ ∀ (mem : Nat → UInt8) (ptr : Nat) (start : Pmm),
    Pmm.boot.pmmInitFromMmap mem ptr = some start →
    ∀ acts : List PmmAction, (∀ addr, .free addr ∈ acts → addr < 2 ^ 32) →
      Pmm.IntactThroughout start acts := by
  intro hall
  have hsound := Pmm.pmmInitFromMmap_sound samplePmm_init
  have hhigh : 1024 * 4096 / pageSize < samplePmm.maxBlocks := by decide +kernel
  have hclear : samplePmm.testBit (1024 * 4096 / pageSize) = false := by decide +kernel
  exact Pmm.free_not_intact hsound (by decide) hhigh hclear
    (hall _ _ _ samplePmm_init [.free (1024 * 4096)] fun addr haddr => by
      cases List.mem_singleton.mp haddr
      decide)

end Newrex
