import Newrex.Pmm.Runs

/-!
# The frames that the initialisation leaves free

`pmm_init_from_mmap` clears the bits of the frames that a region of RAM touches, even when
it does not fill them, and in the order of the memory map, so that a later region of RAM
frees what an earlier reserved region has taken.

* `UsableByte`: what the boot loader says about a byte;
* `test_markEntries`: which frames the memory map leaves free;
* `freeIsUsable_iff`: the free frames are usable exactly for the Multiboot information that
  `MapFits` describes; `mapFits_of_aligned` says that maps with aligned regions that do not
  overlap are among these.
-/

namespace Newrex

open LittleEndian

/-! ## What the boot loader says -/

def entryLengthHigh (mem : Nat → UInt8) (entry : Nat) : Nat := load mem 4 (entry + 16)

/-- Byte `x` lies in the region of a record, whose base and length have 64 bits. -/
def InEntry (mem : Nat → UInt8) (entry x : Nat) : Prop :=
  let base := entryBaseAddrLow mem entry + entryBaseAddrHigh mem entry * 2 ^ 32
  base ≤ x ∧ x < base + (entryLengthLow mem entry + entryLengthHigh mem entry * 2 ^ 32)

instance (mem : Nat → UInt8) (entry x : Nat) : Decidable (InEntry mem entry x) :=
  inferInstanceAs (Decidable (_ ∧ _))

/-- Byte `x` is RAM: with a memory map it lies in a region of type 1 and in no other one,
and without a map below the end of the upper memory. -/
def UsableByte (mem : Nat → UInt8) (mbi x : Nat) : Prop :=
  if mbiFlags mem mbi &&& 64 ≠ 0 then
    ∃ entries, mbiEntries mem mbi = some entries ∧
      (∃ e, e ∈ entries ∧ entryType mem e = 1 ∧ InEntry mem e x) ∧
      ∀ e, e ∈ entries → entryType mem e ≠ 1 → ¬ InEntry mem e x
  else if mbiFlags mem mbi &&& 1 ≠ 0 then x < 2 ^ 20 + mbiMemUpper mem mbi * 1024
  else False

/-- Every free frame above the reserve is usable RAM. -/
def Pmm.FreeIsUsable (s : Pmm) (mem : Nat → UInt8) (mbi : Nat) : Prop :=
  ∀ f, pmmConservativeReserveFrames ≤ f → f < s.maxBlocks → s.testBit f = false →
    ∀ x, f * pageSize ≤ x → x < (f + 1) * pageSize → UsableByte mem mbi x

/-! ## What the code makes of it -/

/-- The loop of `mark_frames` visits frame `f` for the record. -/
def Visits (mem : Nat → UInt8) (maxBlocks entry f : Nat) : Prop :=
  let base := entryBaseAddrLow mem entry
  entryBaseAddrHigh mem entry = 0 ∧ base / pageSize ≤ f ∧
    f < add32 (add32 base (entryLengthLow mem entry)) (pageSize - 1) / pageSize ∧ f < maxBlocks

instance (mem : Nat → UInt8) (maxBlocks entry f : Nat) : Decidable (Visits mem maxBlocks entry f) :=
  inferInstanceAs (Decidable (_ ∧ _ ∧ _ ∧ _))

/-- A record of type 1 visits the frame, and no later record of another type does. -/
def Frees (mem : Nat → UInt8) (maxBlocks : Nat) (entries : List Nat) (f : Nat) : Prop :=
  ∃ pre e post, entries = pre ++ e :: post ∧ entryType mem e = 1 ∧ Visits mem maxBlocks e f ∧
    ∀ e', e' ∈ post → entryType mem e' ≠ 1 → ¬ Visits mem maxBlocks e' f

/-- The frames that are free up to, without a memory map: those below
`mem_lower + mem_upper + 1024` KB, and none when the rounding wraps around. -/
def freeUpTo (mem : Nat → UInt8) (mbi : Nat) : Nat :=
  min (add32 (mbiTotalBytes mem mbi) (pageSize - 1) / pageSize)
    (min (mbiTotalBytes mem mbi / pageSize) 8192)

/-- Multiboot information for which the frames that are left free are RAM. A frame that the
memory map frees has no byte outside the regions of type 1, as at a border that is not
aligned, and none in a region of another type, as with one that an earlier record describes.
Without a map the frames that are free must not reach over the end of the upper memory,
which starts at 1 MB. -/
def MapFits (mem : Nat → UInt8) (mbi : Nat) : Prop :=
  if mbiFlags mem mbi &&& 64 ≠ 0 then
    ∀ entries maxBlocks, mbiEntries mem mbi = some entries →
      computeMaxBlocksFromMmap mem mbi = some maxBlocks →
      ∀ f, pmmConservativeReserveFrames ≤ f → Frees mem maxBlocks entries f →
        ∀ x, f * pageSize ≤ x → x < (f + 1) * pageSize →
          (∃ e, e ∈ entries ∧ entryType mem e = 1 ∧ InEntry mem e x) ∧
            ∀ e, e ∈ entries → entryType mem e ≠ 1 → ¬ InEntry mem e x
  else if mbiFlags mem mbi &&& 1 ≠ 0 then
    freeUpTo mem mbi ≤ pmmConservativeReserveFrames ∨
      freeUpTo mem mbi * pageSize ≤ 2 ^ 20 + mbiMemUpper mem mbi * 1024
  else True

namespace Pmm

variable {s : Pmm}

/-- Marking frames one after the other. -/
theorem test_foldl_mark (used : Bool) (fs : List Nat) (s : Pmm) (f : Nat) :
    (fs.foldl (fun s frame => if used then s.setBit frame else s.clearBit frame) s).testBit f =
      if f ∈ fs then used else s.testBit f := by
  induction fs generalizing s with
  | nil => simp
  | cons a fs ih =>
    have hone : (if used then s.setBit a else s.clearBit a).testBit f =
        if f = a then used else s.testBit f := by
      simp only [testBit_eq]
      cases used with
      | true =>
        rw [if_pos rfl, setBit, Bitmap.test_setBit]
        by_cases hfa : f = a <;> simp [hfa]
      | false =>
        rw [if_neg Bool.false_ne_true, clearBit, Bitmap.test_clearBit]
        by_cases hfa : f = a <;> simp [hfa]
    rw [List.foldl_cons, ih, hone]
    by_cases hmem : f ∈ fs
    · rw [if_pos hmem, if_pos (List.mem_cons_of_mem a hmem)]
    · by_cases hfa : f = a
      · rw [if_neg hmem, if_pos hfa, if_pos (by rw [hfa]; exact List.mem_cons_self)]
      · rw [if_neg hmem, if_neg hfa, if_neg (List.not_mem_cons_of_ne_of_not_mem hfa hmem)]

theorem test_markFrames (s : Pmm) (base length : Nat) (used : Bool) (f : Nat) :
    (s.markFrames base length used).testBit f =
      if base / pageSize ≤ f ∧ f < add32 (add32 base length) (pageSize - 1) / pageSize ∧
        f < s.maxBlocks then used else s.testBit f := by
  rw [markFrames, test_foldl_mark]
  refine if_congr ?_ rfl rfl
  rw [List.mem_range'_1]
  omega

theorem test_markEntry (mem : Nat → UInt8) (s : Pmm) (entry f : Nat) :
    (markEntry mem s entry).testBit f =
      if Visits mem s.maxBlocks entry f then decide (entryType mem entry ≠ 1)
      else s.testBit f := by
  unfold markEntry Visits
  split
  next hhigh => rw [test_markFrames]; simp only [hhigh, true_and]
  next hhigh => simp only [hhigh, false_and, if_false]

/-- A frame that was in use is free behind the whole map when the map frees it. -/
theorem test_markEntries (mem : Nat → UInt8) (entries : List Nat) {f : Nat}
    (hused : s.testBit f = true) :
    (entries.foldl (markEntry mem) s).testBit f = false ↔ Frees mem s.maxBlocks entries f := by
  -- the last record decides, so the induction takes the list from its end
  induction entries using List.reverseRecOn with
  | nil =>
    simp only [List.foldl_nil, hused, Bool.true_eq_false, false_iff]
    rintro ⟨pre, e, post, heq, _⟩
    exact absurd heq (by simp)
  | append_singleton entries a ih =>
    rw [List.foldl_append, List.foldl_cons, List.foldl_nil, test_markEntry,
      foldl_maxBlocks _ (markEntry_maxBlocks mem)]
    constructor
    · intro h
      split at h
      next hvisits =>
        refine ⟨entries, a, [], rfl, ?_, hvisits, fun _ hmem => absurd hmem List.not_mem_nil⟩
        simpa using h
      next hvisits =>
        obtain ⟨pre, e, post, heq, htype, he, hlater⟩ := ih.mp h
        refine ⟨pre, e, post ++ [a], by rw [heq]; simp, htype, he, fun e' hmem hne => ?_⟩
        rcases List.mem_append.mp hmem with hmem | hmem
        · exact hlater e' hmem hne
        · rw [List.mem_singleton.mp hmem]
          exact hvisits
    · rintro ⟨pre, e, post, heq, htype, he, hlater⟩
      rcases List.eq_nil_or_concat post with rfl | ⟨post', b, rfl⟩
      · obtain ⟨rfl, hae⟩ := List.append_inj' heq rfl
        obtain rfl := List.singleton_inj.mp hae
        rw [if_pos he]
        simpa using htype
      · have heq' : entries ++ [a] = (pre ++ e :: post') ++ [b] := by rw [heq]; simp
        obtain ⟨rfl, hab⟩ := List.append_inj' heq' rfl
        obtain rfl := List.singleton_inj.mp hab
        split
        next hvisits =>
          have hlast := hlater a (by simp)
          rw [decide_eq_false_iff_not]
          exact fun hne => hlast hne hvisits
        next =>
          exact ih.mpr ⟨pre, e, post', rfl, htype, he, fun e' hmem =>
            hlater e' (by simp [hmem])⟩

theorem test_reserve (s : Pmm) (f : Nat) :
    s.reserveConservativeRegion.testBit f =
      if f < min pmmConservativeReserveFrames s.maxBlocks then true else s.testBit f := by
  have hmark := test_foldl_mark true (List.range (min pmmConservativeReserveFrames s.maxBlocks)) s f
  simp only [if_true, List.mem_range] at hmark
  exact hmark

theorem reserve_testBit (s : Pmm) {f : Nat} (hf : pmmConservativeReserveFrames ≤ f) :
    s.reserveConservativeRegion.testBit f = s.testBit f := by
  rw [test_reserve, if_neg]
  omega

/-- The frames above the reserve that the initialisation leaves free. -/
theorem pmmInitFromMmap_free {mem : Nat → UInt8} {mbi : Nat} {s0 : Pmm} (hmbi : mbi ≠ 0)
    (h : s0.pmmInitFromMmap mem mbi = some s) :
    computeMaxBlocksFromMmap mem mbi = some s.maxBlocks ∧
      ∀ f, pmmConservativeReserveFrames ≤ f → f < s.maxBlocks → (s.testBit f = false ↔
        if mbiFlags mem mbi &&& 64 ≠ 0 then
          ∃ entries, mbiEntries mem mbi = some entries ∧ Frees mem s.maxBlocks entries f
        else if mbiFlags mem mbi &&& 1 ≠ 0 then
          f < add32 (mbiTotalBytes mem mbi) (pageSize - 1) / pageSize
        else False) := by
  rw [pmmInitFromMmap, if_neg hmbi] at h
  simp only [Option.bind_eq_bind, Option.bind_eq_some_iff, Option.some.injEq] at h
  obtain ⟨maxBlocks, hmax, marked, hmarked, rfl⟩ := h
  have hkeep : marked.maxBlocks = maxBlocks := markMemory_maxBlocks hmarked
  have hall : ∀ f, f < 8192 → ({ s0.bitmapMarkAllUsed with maxBlocks } : Pmm).testBit f = true := by
    intro f hf
    rw [testBit_eq, Bitmap.test]
    have hbyte : memset s0.memoryBitmap 0 0xFF 1024 (f / 8) = 0xFF := if_pos (by omega)
    show Bitmap.bitOf (memset s0.memoryBitmap 0 0xFF 1024 (f / 8)) (f % 8) = true
    rw [hbyte]
    exact Bitmap.eq_ff_iff.mp rfl _ (Nat.mod_lt _ (by decide))
  have hrange := computeMaxBlocksFromMmap_range hmax
  have hresult : marked.reserveConservativeRegion.recountUsedBlocks.maxBlocks = maxBlocks :=
    (reserveConservativeRegion_maxBlocks marked).trans hkeep
  refine ⟨hmax.trans (congrArg some hresult.symm), fun f hf hlt => ?_⟩
  rw [hresult] at hlt ⊢
  have hbit : marked.reserveConservativeRegion.recountUsedBlocks.testBit f = marked.testBit f :=
    reserve_testBit marked hf
  rw [hbit]
  have hused := hall f (by omega)
  unfold markMemory at hmarked
  split at hmarked
  · next hmap =>
    obtain ⟨entries, hentries, rfl⟩ := Option.map_eq_some_iff.mp hmarked
    rw [test_markEntries mem entries hused, if_pos hmap]
    constructor
    · exact fun h => ⟨entries, hentries, h⟩
    · rintro ⟨entries', hentries', h⟩
      obtain rfl := Option.some.inj (hentries.symm.trans hentries')
      exact h
  · next hmap =>
    rw [if_neg hmap]
    split at hmarked
    · next hflag =>
      obtain rfl := Option.some.inj hmarked
      have hbase : add32 0 (mbiTotalBytes mem mbi) = mbiTotalBytes mem mbi := by
        rw [add32, Nat.zero_add, mbiTotalBytes, Nat.mod_mod]
      rw [test_markFrames, if_pos hflag, hbase, hused, Nat.zero_div]
      simp [hlt]
    · next hflag =>
      obtain rfl := Option.some.inj hmarked
      rw [if_neg hflag, hused]
      simp

end Pmm

/-- The number of frames without a memory map. -/
theorem computeMaxBlocks_total {mem : Nat → UInt8} {mbi n : Nat}
    (hmap : ¬ mbiFlags mem mbi &&& 64 ≠ 0) (hflag : mbiFlags mem mbi &&& 1 ≠ 0)
    (h : computeMaxBlocksFromMmap mem mbi = some n) :
    n = max pmmConservativeReserveFrames (min (mbiTotalBytes mem mbi / pageSize) 8192) := by
  rw [computeMaxBlocksFromMmap, mbiHighest, if_neg hmap, if_pos hflag] at h
  have hn := Option.some.inj h
  unfold pmmConservativeReserveFrames at *
  dsimp only at hn
  split at hn <;> split at hn <;> omega

/-- Frames that are free are RAM. After the initialisation from any Multiboot information,
every free frame above the reserve is usable RAM exactly when the information fits. -/
theorem freeIsUsable_iff {mem : Nat → UInt8} {mbi : Nat} {s0 s : Pmm} (hmbi : mbi ≠ 0)
    (h : s0.pmmInitFromMmap mem mbi = some s) : s.FreeIsUsable mem mbi ↔ MapFits mem mbi := by
  obtain ⟨hmax, hfree⟩ := Pmm.pmmInitFromMmap_free hmbi h
  unfold Pmm.FreeIsUsable MapFits UsableByte
  by_cases hmap : mbiFlags mem mbi &&& 64 ≠ 0
  · simp only [if_pos hmap] at hfree ⊢
    constructor
    · intro husable entries maxBlocks hentries hmax' f hf hfrees x hlow hhigh
      obtain rfl := Option.some.inj (hmax.symm.trans hmax')
      obtain ⟨pre, e, post, heq, htype, hvisits, hlater⟩ := hfrees
      have hbit := (hfree f hf hvisits.2.2.2).mpr
        ⟨entries, hentries, pre, e, post, heq, htype, hvisits, hlater⟩
      obtain ⟨entries', hentries', hbytes⟩ := husable f hf hvisits.2.2.2 hbit x hlow hhigh
      obtain rfl := Option.some.inj (hentries.symm.trans hentries')
      exact hbytes
    · intro hfits f hf hlt hbit x hlow hhigh
      obtain ⟨entries, hentries, hfrees⟩ := (hfree f hf hlt).mp hbit
      exact ⟨entries, hentries, hfits entries s.maxBlocks hentries hmax f hf hfrees x hlow hhigh⟩
  · simp only [if_neg hmap] at hfree ⊢
    by_cases hflag : mbiFlags mem mbi &&& 1 ≠ 0
    · simp only [if_pos hflag] at hfree ⊢
      have hcount := computeMaxBlocks_total hmap hflag hmax
      -- the frames below the count that the loop clears
      have hclear : ∀ f, pmmConservativeReserveFrames ≤ f →
          (f < s.maxBlocks ∧ s.testBit f = false ↔ f < freeUpTo mem mbi) := by
        intro f hf
        constructor
        · rintro ⟨hlt, hbit⟩
          have hvisited := (hfree f hf hlt).mp hbit
          rw [freeUpTo]
          omega
        · intro hlt
          rw [freeUpTo] at hlt
          have hlt' : f < s.maxBlocks := by omega
          exact ⟨hlt', (hfree f hf hlt').mpr (by omega)⟩
      constructor
      · intro husable
        by_contra hnot
        rw [not_or] at hnot
        -- the last byte of the last free frame
        have hlast := (hclear (freeUpTo mem mbi - 1) (by omega)).mpr (by omega)
        have hbyte := husable (freeUpTo mem mbi - 1) (by omega) hlast.1 hlast.2
          (freeUpTo mem mbi * pageSize - 1)
        unfold pmmConservativeReserveFrames pageSize at *
        omega
      · intro hfits f hf hlt hbit x _ hhigh
        have hbelow := (hclear f hf).mp ⟨hlt, hbit⟩
        unfold pmmConservativeReserveFrames pageSize at *
        omega
    · simp only [if_neg hflag, iff_true] at hfree ⊢
      intro f hf hlt hbit
      exact absurd ((hfree f hf hlt).mp hbit) not_false

/-- Maps that fit: the regions of RAM below 4 GB are aligned to frames, their ends are not
beyond 4 GB, and no other region shares a byte with them. -/
theorem mapFits_of_aligned {mem : Nat → UInt8} {mbi : Nat} (hmap : mbiFlags mem mbi &&& 64 ≠ 0)
    {entries : List Nat} (hentries : mbiEntries mem mbi = some entries)
    (haligned : ∀ e, e ∈ entries → entryType mem e = 1 → entryBaseAddrHigh mem e = 0 →
      entryBaseAddrLow mem e % pageSize = 0 ∧ entryLengthLow mem e % pageSize = 0 ∧
        entryBaseAddrLow mem e + entryLengthLow mem e < 2 ^ 32)
    (hdisjoint : ∀ e, e ∈ entries → entryType mem e = 1 → ∀ e', e' ∈ entries →
      entryType mem e' ≠ 1 → ∀ x, InEntry mem e x → ¬ InEntry mem e' x) : MapFits mem mbi := by
  rw [MapFits, if_pos hmap]
  intro entries' maxBlocks hentries' _ f _ hfrees x hlow hhigh
  obtain rfl := Option.some.inj (hentries.symm.trans hentries')
  obtain ⟨pre, e, post, heq, htype, ⟨hbase, hfirst, hlast, _⟩, _⟩ := hfrees
  have hmem : e ∈ entries := by rw [heq]; simp
  obtain ⟨hstart, hlength, hend⟩ := haligned e hmem htype hbase
  have hin : InEntry mem e x := by
    simp only [InEntry, hbase]
    rw [add32, add32] at hlast
    unfold pageSize at *
    omega
  exact ⟨⟨e, hmem, htype, hin⟩, fun e' hmem' hne => hdisjoint e hmem htype e' hmem' hne x hin⟩

theorem sampleMultiboot_entries : mbiEntries sampleMultiboot 0x1000 = some [0x2000] := by
  decide +kernel

/-- The eight free frames of the sample are RAM. -/
theorem samplePmm_usable : samplePmm.FreeIsUsable sampleMultiboot 0x1000 := by
  have hone : ∀ e, e ∈ [0x2000] → e = 0x2000 := fun e he => List.mem_singleton.mp he
  refine (freeIsUsable_iff (by decide) samplePmm_init).mpr
    (mapFits_of_aligned (by decide +kernel) sampleMultiboot_entries ?_ ?_)
  · intro e he _ _
    rw [hone e he]
    decide +kernel
  · intro e he _ e' he' hne
    rw [hone e' he'] at hne
    exact absurd (by decide +kernel) hne

/-- A memory map with a region of RAM from 4 MB that ends in the middle of frame 1025, and a
reserved region from frame 1027 on. -/
def raggedMultiboot : Nat → UInt8 :=
  let mem := store (fun _ => 0) 4 0x1000 64
  let mem := store mem 4 (0x1000 + 44) 48
  let mem := store mem 4 (0x1000 + 48) 0x2000
  let mem := store mem 4 0x2000 20
  let mem := store mem 4 (0x2000 + 4) 0x400000
  let mem := store mem 4 (0x2000 + 12) 0x1800
  let mem := store mem 4 (0x2000 + 20) 1
  let mem := store mem 4 0x2018 20
  let mem := store mem 4 (0x2018 + 4) 0x403000
  let mem := store mem 4 (0x2018 + 12) 0x1000
  store mem 4 (0x2018 + 20) 2

theorem raggedMultiboot_ends :
    (Pmm.boot.pmmInitFromMmap raggedMultiboot 0x1000).isSome = true := by decide +kernel

def raggedPmm : Pmm := (Pmm.boot.pmmInitFromMmap raggedMultiboot 0x1000).get raggedMultiboot_ends

/-- Frame 1025 is left free, though its second half is no RAM. -/
theorem ragged_frame_free :
    Pmm.boot.pmmInitFromMmap raggedMultiboot 0x1000 = some raggedPmm ∧
      1025 < raggedPmm.maxBlocks ∧ raggedPmm.testBit 1025 = false ∧
      ¬ raggedPmm.FreeIsUsable raggedMultiboot 0x1000 := by
  have hentries : mbiEntries raggedMultiboot 0x1000 = some [0x2000, 0x2018] := by decide +kernel
  have hmap : mbiFlags raggedMultiboot 0x1000 &&& 64 ≠ 0 := by decide +kernel
  have hlt : 1025 < raggedPmm.maxBlocks := by decide +kernel
  have hbit : raggedPmm.testBit 1025 = false := by decide +kernel
  refine ⟨(Option.some_get raggedMultiboot_ends).symm, hlt, hbit, fun h => ?_⟩
  have hbyte := h 1025 (by decide) hlt hbit 0x401800 (by decide) (by decide)
  rw [UsableByte, if_pos hmap] at hbyte
  obtain ⟨entries, heq, ⟨e, he, htype, hin⟩, _⟩ := hbyte
  obtain rfl := Option.some.inj (hentries.symm.trans heq)
  have hnone : ∀ e, e ∈ [0x2000, 0x2018] → entryType raggedMultiboot e = 1 →
      ¬ InEntry raggedMultiboot e 0x401800 := by decide +kernel
  exact hnone e he htype hin

end Newrex
