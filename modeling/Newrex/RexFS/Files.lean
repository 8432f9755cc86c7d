import Newrex.RexFS.Ownership

/-!
# RexFS: the contents of files

What `rexfs_cat` reads, under block ownership.

* `fileBytes_congr`: the bytes of a file depend on its own blocks only.
* `fileBytes_filled`: reading back what the allocation loop wrote.
* `run_file_isolation`: a command changes neither the inode nor the bytes of a
  file that it did not resolve.
* `run_write_cat`: what `write` stores is what `cat` prints, when there is room.
-/

namespace Newrex

open RexFS

/-! ## What a file depends on -/

namespace RexFS

theorem blockLbaOf_congr {d d' : Disk} {ino : NrInode}
    (h : ino.indirectBlock ≠ 0 → d' ino.indirectBlock.toNat = d ino.indirectBlock.toNat) (k : Nat) :
    blockLbaOf d' ino k = blockLbaOf d ino k := by
  unfold blockLbaOf
  split
  · rfl
  · split
    · rfl
    · next h0 => rw [h h0]

/-- The blocks that the reading loop visits are blocks of the inode. -/
theorem blockLbaOf_mem {d : Disk} {ino : NrInode} {k b : Nat}
    (hk : k < 266 ∨ ino.indirectBlock = 0) (h : blockLbaOf d ino k = some b) (hb : b ≠ 0) :
    b ∈ d.blocksOf ino := by
  unfold blockLbaOf at h
  unfold Disk.blocksOf
  split at h
  · next h10 =>
    cases h
    refine List.mem_append_left _ (mem_pointerRefs.mpr ⟨hb, _, ?_, rfl⟩)
    exact List.mem_ofFn.mpr ⟨_, rfl⟩
  · split at h
    · exact absurd h (by simp)
    · next h10 h0 =>
      cases h
      rw [if_neg h0]
      refine List.mem_append_right _ (List.mem_append_left _ (mem_pointerRefs.mpr ⟨hb, _, ?_, rfl⟩))
      have hlt : k - 10 < 256 := by
        rcases hk with hk | hk
        · omega
        · exact absurd hk h0
      exact List.mem_map.mpr ⟨k - 10, List.mem_range.mpr hlt, rfl⟩

theorem readBlocks_congr {d d' : Disk} {ino : NrInode} (h : ∀ b, b ∈ d.blocksOf ino → d' b = d b)
    (n k : Nat) (bytesRead : UInt32) :
    readBlocks d' ino n k bytesRead = readBlocks d ino n k bytesRead := by
  induction n generalizing k bytesRead with
  | zero => rfl
  | succ n ih =>
    have hlba : blockLbaOf d' ino k = blockLbaOf d ino k :=
      blockLbaOf_congr (fun h0 => h _ (Disk.indirect_mem_blocksOf h0)) k
    rw [readBlocks, readBlocks, hlba]
    split
    · rfl
    · next hguard =>
      split
      · rfl
      · next b hb =>
        by_cases hb0 : b = 0
        · simp only [hb0, if_true]
        · have hk : k < 266 ∨ ino.indirectBlock = 0 := by
            by_cases h0 : ino.indirectBlock = 0
            · exact Or.inr h0
            · exact Or.inl (Nat.lt_of_not_le fun hle => hguard ⟨hle, h0⟩)
          simp only [hb0, if_false, ih, h b (blockLbaOf_mem hk hb hb0)]

/-- The bytes of a file depend only on its blocks. -/
theorem fileBytes_congr {d d' : Disk} {ino : NrInode} (h : ∀ b, b ∈ d.blocksOf ino → d' b = d b) :
    fileBytes d' ino = fileBytes d ino := readBlocks_congr h _ _ _

end RexFS

/-! ## Isolation -/

/-- Slot `t` has the same inode on both disks, and the same blocks with the same
contents. -/
def SameFile (t : Slot) (d d' : Disk) : Prop :=
  d'.inode t = d.inode t ∧ ∀ b, b ∈ d.ownedBlocks t → d' b = d b

theorem SameFile.of_blocks {t : Slot} {d d' : Disk} {total : Nat} (hown : BlockOwnership total d)
    (hinode : d'.inode t = d.inode t) (h : ∀ l, 11 ≤ l → d' l = d l) : SameFile t d d' :=
  ⟨hinode, fun b hb => h b (hown.blocks.marked t b hb).1⟩

/-- A live inode that the command did not resolve keeps its record and its blocks,
whatever the command does. -/
theorem effect_isolates {total : Nat} {st st' : RexFS} {op : Op} {t : Slot}
    (hown : BlockOwnership total st.disk) (hoff : st.activeSb.dataOffset = 11)
    (hmkfs : ∀ c, op ≠ .mkfs c) (hlive : (st.disk.inode t).id ≠ 0)
    (hother : op.resolved st ≠ some t) (he : Effect st op st') : SameFile t st.disk st'.disk := by
  have hne : ∀ s, op.resolved st = some s → t ≠ s := by
    rintro s hres rfl
    exact hother hres
  cases he with
  | same hd _ _ => rw [hd]; exact ⟨rfl, fun _ _ => rfl⟩
  | format c hop _ _ _ _ => exact absurd hop (hmkfs c)
  | mounted sb _ _ _ _ hd _ _ =>
    rw [hd]
    refine .of_blocks hown (Disk.inode_congr (fun l hl _ => ?_) t) fun l hl => ?_
    · exact Function.update_of_ne (by omega) _ _
    · exact Function.update_of_ne (by omega) _ _
  | unmounted sb _ _ _ hd _ _ =>
    rw [hd]
    refine .of_blocks hown (Disk.inode_congr (fun l hl _ => ?_) t) fun l hl => ?_
    · exact Function.update_of_ne (by omega) _ _
    · exact Function.update_of_ne (by omega) _ _
  | chdir id _ _ hd _ _ => rw [hd]; exact ⟨rfl, fun _ _ => rfl⟩
  | create s type name _ _ _ _ _ _ hfree hd _ _ =>
    have hts : t ≠ s := by
      rintro rfl
      exact hlive (by simpa using (Disk.findInode_some hfree).1)
    rw [hd]
    exact .of_blocks hown (Disk.setInode_inode_of_ne _ _ hts)
      fun l hl => Disk.setInode_of_ge _ _ _ (by omega)
  | rmdir s name _ hres _ _ _ hd _ _ =>
    rw [hd]
    exact .of_blocks hown (Disk.setInode_inode_of_ne _ _ (hne s hres))
      fun l hl => Disk.setInode_of_ge _ _ _ (by omega)
  | remove s name _ hres _ _ hd _ _ =>
    rw [hd]
    refine .of_blocks hown ?_ fun l hl => ?_
    · rw [Disk.setInode_inode_of_ne _ _ (hne s hres), freeInodeBlocks_inode]
    · rw [Disk.setInode_of_ge _ _ _ (by omega), freeInodeBlocks_disk_of_ne _ _ (by omega)]
  | freed s name _ _ _ _ hd _ _ =>
    rw [hd]
    exact .of_blocks hown (freeInodeBlocks_inode t _)
      fun l hl => freeInodeBlocks_disk_of_ne _ _ (by omega)
  | rewrite s name r bs ind leak _ hres hfind _ hW hd _ _ =>
    have hts := hne s hres
    have hslive := (isEntryOf_iff.mp (Disk.findInode_some hfind).1).1
    have halloc := hW.filled.alloc
    rw [hd]
    refine ⟨?_, ?_⟩
    · rw [Disk.setInode_inode_of_ne _ _ hts]
      exact hW.inode t
    · -- a block of `t` stays marked through the freeing, so it is not allocated again
      intro b hb
      have hm := hown.blocks.marked t b hb
      have hkept := (freeInodeBlocks_marked_iff hown hoff hslive b).mpr
        ⟨hm, hown.blocks.disjoint t s hts b hb⟩
      have hlow := hm.1
      rw [Disk.setInode_of_ge _ _ _ (by omega),
        halloc.frame b (by omega) (halloc.not_mem_of_bit hkept.2.2),
        freeInodeBlocks_disk_of_ne _ _ (by omega)]

/-- File isolation. In every state of a run, a command other than `mkfs`
leaves the inode and the bytes of every live inode as they were, except for the one
that `rm`, `write` or `writehex` resolved. -/
theorem run_file_isolation {capacity : UInt32} (hcap : 11 ≤ capacity) {st : RexFS}
    (h : (formattedRuns capacity).Reachable st) (op : Op) (hmkfs : ∀ c, op ≠ .mkfs c)
    {t : Slot} (hlive : (st.disk.inode t).id ≠ 0)
    (hother : op.resolved st ≠ some t) :
    (op.step st).disk.inode t = st.disk.inode t ∧
      fileBytes (op.step st).disk ((op.step st).disk.inode t) =
        fileBytes st.disk (st.disk.inode t) := by
  have hsound := reachable_sound hcap h
  have hoff : st.activeSb.dataOffset = 11 := by rw [hsound.active]; rfl
  obtain ⟨hinode, hblocks⟩ := effect_isolates hsound.owned hoff hmkfs hlive hother
    (step_effect st (fun _ => hoff) op)
  refine ⟨hinode, ?_⟩
  rw [hinode]
  refine fileBytes_congr fun b hb => hblocks b ?_
  rw [Disk.ownedBlocks_of_live hlive]
  exact hb

/-- Writing to `b` leaves `a` as it was. -/
theorem run_file_isolation_sample :
    (fileBytes sampleRun.disk (sampleRun.disk.inode 0)).1 = [104, 105] ∧
      fileBytes ((Op.write (.ofBuffer [98, 32, 120])).step sampleRun).disk
          (((Op.write (.ofBuffer [98, 32, 120])).step sampleRun).disk.inode 0) =
        fileBytes sampleRun.disk (sampleRun.disk.inode 0) :=
  ⟨by decide +kernel, (run_file_isolation (by decide) sampleRun_reachable
    (.write (.ofBuffer [98, 32, 120])) (by simp) (t := 0) (by decide +kernel)
    (by decide +kernel)).2⟩

/-! ## Reading back -/

/-- The bytes copied out of the block that holds chunk `k`. -/
theorem chunkOf_bytes (data : List UInt8) (k : Nat) {m : Nat} (hm : m ≤ 512)
    (hlen : m ≤ data.length - 512 * k) :
    (List.range m).map (chunkOf data k).byte = (data.drop (512 * k)).take m := by
  refine List.ext_getElem ?_ fun j hj _ => ?_
  · rw [List.length_map, List.length_range, List.length_take, List.length_drop]
    omega
  · rw [List.length_map, List.length_range] at hj
    have hin : 512 * k + j < data.length := by omega
    rw [List.getElem_map, List.getElem_range, Sector.byte_of_lt _ (by omega), List.getElem_take,
      List.getElem_drop]
    simp only [chunkOf, chunkSector]
    rw [if_pos (by omega), List.getD, List.getElem?_eq_getElem hin, Option.getD_some]

/-- Block `k` of an inode that lists `bs`. -/
theorem Layout.blockLbaOf_eq {d : Disk} {ino : NrInode} {bs : List Nat} {ind k : Nat}
    (h : Layout d ino bs ind) (hk : k < bs.length) : blockLbaOf d ino k = some bs[k] := by
  have hval : (UInt16.ofNat (bs.getD k 0)).toNat = bs[k] := by
    have := (h.blocks bs[k] (List.getElem_mem hk)).2
    rw [List.getD, List.getElem?_eq_getElem hk, Option.getD_some, UInt16.toNat_ofNat']
    omega
  unfold blockLbaOf
  by_cases h10 : k < 10
  · rw [dif_pos h10, h.direct ⟨k, h10⟩, hval]
  · have h0 : ind ≠ 0 := fun h0 => by have := h.short h0; omega
    have hind : ino.indirectBlock.toNat = ind := by
      have := h.ind_lt
      rw [h.indirect, UInt16.toNat_ofNat']
      omega
    have hino : ¬ ino.indirectBlock = 0 := fun hz => h0 (by rw [← hind, hz]; rfl)
    have hlen := h.len
    rw [dif_neg h10, if_neg hino, hind, h.table h0 _ (by omega),
      Nat.add_sub_cancel' (by omega), hval]

theorem UInt32.toNat_ofNat_of_le {n : Nat} (h : n ≤ 136192) : (UInt32.ofNat n).toNat = n := by
  rw [UInt32.toNat_ofNat']
  omega

/-- `chunk_size` while there are `m > 0` bytes left. -/
theorem chunkSizeOf_eq {a m : Nat} (h : a + m ≤ 136192) :
    chunkSizeOf (UInt32.ofNat (a + m)) (UInt32.ofNat a) = UInt32.ofNat (min m 512) := by
  have hsub : UInt32.ofNat (a + m) - UInt32.ofNat a = UInt32.ofNat m := by
    rw [UInt32.ofNat_add, UInt32.add_comm, UInt32.add_sub_cancel]
  have hm : (UInt32.ofNat m).toNat = m := UInt32.toNat_ofNat_of_le (by omega)
  unfold chunkSizeOf
  rw [hsub, hm]
  by_cases h512 : 512 < m
  · rw [if_pos ⟨h512, by omega⟩, Nat.min_eq_right (by omega)]
    rfl
  · rw [if_neg fun h => h512 h.1, Nat.min_eq_left (by omega)]

theorem bytesIn_le {data : List UInt8} {k : Nat} (hk : k ≤ 266) : bytesIn data k ≤ 136192 := by
  unfold bytesIn
  omega

theorem take_first_chunk (l : List UInt8) (m : Nat) :
    l.take (min m 512) ++ (l.drop 512).take (m - 512) = l.take m := by
  have hsplit := List.take_append_drop 512 (l.take m)
  rwa [List.take_take, List.drop_take, Nat.min_comm] at hsplit

section ReadBack

variable {d : Disk} {ino : NrInode} {bs : List Nat} {ind : Nat} {data : List UInt8}

/-- The reading loop from block `k` on. The induction is on the number of blocks
left. -/
theorem readBlocks_filled (hlayout : Layout d ino bs ind)
    (hchunks : ∀ j (h : j < bs.length), d bs[j] = chunkOf data j)
    (hsize : ino.size = UInt32.ofNat (bytesIn data bs.length))
    (hfull : bs.length ≤ blocksNeeded data.length) (n k : Nat) (hk : k + n = bs.length) :
    readBlocks d ino n k (UInt32.ofNat (bytesIn data k)) =
      ((data.take (bytesIn data bs.length)).drop (512 * k), false) := by
  induction n generalizing k with
  | zero =>
    have : (data.take (bytesIn data bs.length)).drop (512 * k) = [] := by
      rw [List.drop_eq_nil_iff, List.length_take]
      unfold bytesIn
      omega
    rw [this]
    rfl
  | succ n ih =>
    have hlt : k < bs.length := by omega
    have hlen := hlayout.len
    have hstart : 512 * k < data.length := by
      unfold blocksNeeded at hfull
      omega
    have hk512 : bytesIn data k = 512 * k := Nat.min_eq_left (by omega)
    have hend : bytesIn data bs.length = min (512 * bs.length) data.length := rfl
    -- the size left over from block `k` on
    obtain ⟨m, hm⟩ : ∃ m, bytesIn data bs.length = 512 * k + m :=
      ⟨bytesIn data bs.length - 512 * k, by omega⟩
    have hmax : 512 * k + m ≤ 136192 := by
      rw [← hm]
      exact bytesIn_le hlen
    have hchunk : chunkSizeOf ino.size (UInt32.ofNat (bytesIn data k)) =
        UInt32.ofNat (min m 512) := by
      rw [hsize, hm, hk512]
      exact chunkSizeOf_eq hmax
    have hval : (UInt32.ofNat (min m 512)).toNat = min m 512 := UInt32.toNat_ofNat_of_le (by omega)
    have hnext : UInt32.ofNat (bytesIn data k) + UInt32.ofNat (min m 512) =
        UInt32.ofNat (bytesIn data (k + 1)) := by
      rw [← UInt32.ofNat_add]
      congr 1
      unfold bytesIn at hm ⊢
      omega
    have hb := hlayout.blocks bs[k] (List.getElem_mem hlt)
    rw [readBlocks, if_neg (by omega), hlayout.blockLbaOf_eq hlt]
    simp only [hb.1, if_false, hchunk, hval, hnext, ih (k + 1) (by omega)]
    rw [if_pos (by omega), hchunks k hlt,
      chunkOf_bytes data k (Nat.min_le_right _ _) (by omega), hm]
    congr 1
    have h1 : 512 * k + m - 512 * k = m := by omega
    have h2 : 512 * k + m - 512 * (k + 1) = m - 512 := by omega
    rw [List.drop_take, List.drop_take, h1, h2, Nat.mul_succ, ← List.drop_drop]
    exact take_first_chunk (data.drop (512 * k)) m

/-- Reading a file that lists `bs`, with chunk `j` of `data` in block `j`, gives as
much of `data` as the blocks hold. -/
theorem fileBytes_filled (hlayout : Layout d ino bs ind)
    (hchunks : ∀ j (h : j < bs.length), d bs[j] = chunkOf data j)
    (hsize : ino.size = UInt32.ofNat (bytesIn data bs.length))
    (hfull : bs.length ≤ blocksNeeded data.length) :
    fileBytes d ino = (data.take (bytesIn data bs.length), false) := by
  have hle : bytesIn data bs.length ≤ 136192 := bytesIn_le hlayout.len
  have hcount : (ino.size + 511).toNat / 512 = bs.length := by
    rw [hsize, UInt32.toNat_add, UInt32.toNat_ofNat_of_le hle]
    have h511 : (511 : UInt32).toNat = 511 := rfl
    rw [h511]
    unfold bytesIn blocksNeeded at *
    omega
  have hread := readBlocks_filled hlayout hchunks hsize hfull bs.length 0 (Nat.zero_add _)
  have hzero : UInt32.ofNat (bytesIn data 0) = 0 := by simp [bytesIn]
  rw [hzero] at hread
  rw [fileBytes, hcount, hread, Nat.mul_zero, List.drop_zero]

end ReadBack

/-! ## Room for a payload -/

/-- The blocks that `n` data blocks take: one more for the indirect block when ten
are not enough. -/
def blocksWithIndex (n : Nat) : Nat := if n > 10 then n + 1 else n

/-- Freeing a file makes exactly its blocks free. -/
theorem freeCount_freed {st : RexFS} {limit : Nat} {s : Slot}
    (hown : BlockOwnership (11 + limit) st.disk) (hoff : st.activeSb.dataOffset = 11)
    (hlive : (st.disk.inode s).id ≠ 0) :
    (st.freeInodeBlocks (st.disk.inode s)).disk.freeCount (min limit 4096) =
      st.disk.freeCount (min limit 4096) + (st.disk.blocksOf (st.disk.inode s)).length := by
  have howned := Disk.ownedBlocks_of_live hlive
  have hind := hown.indirect_ne hlive
  have hmarked : ∀ b, b ∈ st.disk.blocksOf (st.disk.inode s) →
      st.disk.Marked (11 + limit) b ∧ b - 11 < 4096 := by
    intro b hb
    have hm := hown.blocks.marked s b (by rw [howned]; exact hb)
    exact ⟨hm, Sector.bit_lt hm.2.2⟩
  have hnodup := hown.blocks.nodup s
  rw [howned] at hnodup
  refine Disk.freeCount_add hnodup (fun b hb => ?_) ?_ ?_
  · obtain ⟨⟨hlow, hhigh, _⟩, hlt⟩ := hmarked b hb
    exact ⟨hlow, by omega⟩
  · intro b hb
    obtain ⟨⟨hlow, _, _⟩, hlt⟩ := hmarked b hb
    rw [freeInodeBlocks_bit st hoff hind hlt, Nat.add_sub_cancel' hlow]
    simp [hb]
  · intro i hi
    rw [freeInodeBlocks_bit st hoff hind (by omega)]
    by_cases hb : 11 + i ∈ st.disk.blocksOf (st.disk.inode s)
    · have hm := (hmarked _ hb).1.2.2
      rw [Nat.add_sub_cancel_left] at hm
      simp [hm, hb]
    · simp [hb]

theorem freeCount_freeInodeBlocks {st : RexFS} {n : Nat} {s : Slot}
    (hown : BlockOwnership (11 + n) st.disk) (hoff : st.activeSb.dataOffset = 11)
    (hn : 11 + n ≤ 4096) (hlive : (st.disk.inode s).id ≠ 0) :
    (st.freeInodeBlocks (st.disk.inode s)).disk.freeCount n =
      st.disk.freeCount n + (st.disk.blocksOf (st.disk.inode s)).length := by
  have h := freeCount_freed hown hoff hlive
  rwa [Nat.min_eq_left (by omega)] at h

theorem Full.freeCount_eq_zero {limit : Nat} {d : Disk} (h : Full limit d) :
    d.freeCount (min limit 4096) = 0 :=
  Disk.freeCount_eq_zero fun i hi => h i (by omega) (by omega)

/-- The blocks that were free before the loop are still free after it, or listed with the
indirect block, or leaked. -/
theorem Wrote.freeCount {limit n : Nat} {data : List UInt8} {d0 : Disk} {st : RexFS}
    {ino : NrInode} {r : RexFS × NrInode × Nat} {bs leak : List Nat} {ind : Nat}
    (hW : Wrote limit data n d0 st ino r bs ind leak) :
    d0.freeCount (min limit 4096) = r.1.disk.freeCount (min limit 4096) +
      (blocksWithIndex bs.length + leak.length) := by
  have halloc := hW.filled.alloc
  have hcount : d0.freeCount (min limit 4096) =
      r.1.disk.freeCount (min limit 4096) + (bs ++ tableOf ind ++ leak).length :=
    Disk.freeCount_add halloc.nodup
      (fun b hb => ⟨(halloc.range b hb).1, by have := halloc.range b hb; omega⟩) halloc.clear
      fun i hi => halloc.bits i (by omega)
  have htable : bs.length + (tableOf ind).length = blocksWithIndex bs.length := by
    unfold tableOf blocksWithIndex
    by_cases h0 : ind = 0
    · rw [if_pos h0, if_neg (Nat.not_lt.mpr (hW.short.mp h0))]
      rfl
    · rw [if_neg h0, if_pos (Nat.lt_of_not_le fun h => h0 (hW.short.mpr h))]
      rfl
  rw [hcount, List.length_append, List.length_append, htable]

theorem blocksWithIndex_lt {m n : Nat} (h : m < n) : blocksWithIndex m < blocksWithIndex n := by
  unfold blocksWithIndex
  split
  · rw [if_pos (by omega)]
    omega
  · split
    · omega
    · exact h

/-- With enough free blocks the loop writes the whole payload. -/
theorem Wrote.complete {limit n : Nat} {data : List UInt8} {d0 : Disk} {st : RexFS} {ino : NrInode}
    {r : RexFS × NrInode × Nat} {bs leak : List Nat} {ind : Nat}
    (hW : Wrote limit data n d0 st ino r bs ind leak) (hlimit : limit ≤ 4096)
    (hroom : blocksWithIndex n ≤ d0.freeCount limit) :
    bs.length = n ∧ r.2.2 = bytesIn data n := by
  have hcount := hW.freeCount
  rw [Nat.min_eq_left hlimit] at hcount
  have hzero : Full limit r.1.disk → r.1.disk.freeCount limit = 0 := fun hfull => by
    have h := hfull.freeCount_eq_zero
    rwa [Nat.min_eq_left hlimit] at h
  cases hW.outcome with
  | complete hlen _ hbytes => exact ⟨hlen, hbytes⟩
  | noBlock hlen hleak hfull _ =>
    have hlt := blocksWithIndex_lt hlen
    rw [hzero hfull, hleak, List.length_nil] at hcount
    omega
  | noIndex hlen hn hleak hfull _ =>
    have hten : blocksWithIndex bs.length = 10 := by rw [hlen]; rfl
    rw [blocksWithIndex, if_pos hn] at hroom
    have := hzero hfull
    omega

/-! ## The number of bytes read -/

theorem chunkSizeOf_cases (size bytesRead : UInt32) :
    (512 < (size - bytesRead).toNat ∧ chunkSizeOf size bytesRead = 512) ∨
      chunkSizeOf size bytesRead = size - bytesRead := by
  unfold chunkSizeOf
  split
  · next h => exact Or.inl ⟨h.1, rfl⟩
  · exact Or.inr rfl

/-- The reading loop reads at most the bytes that the file has left. -/
theorem readBlocks_length_le (d : Disk) (ino : NrInode) (n k : Nat) (bytesRead : UInt32) :
    (readBlocks d ino n k bytesRead).1.length ≤ (ino.size - bytesRead).toNat := by
  induction n generalizing k bytesRead with
  | zero => exact Nat.zero_le _
  | succ n ih =>
    unfold readBlocks
    split
    · exact Nat.zero_le _
    · split
      · exact Nat.zero_le _
      · next lba _ =>
        split
        · exact Nat.zero_le _
        · have hrest := ih (k + 1) (bytesRead + chunkSizeOf ino.size bytesRead)
          have hleft : ino.size - (bytesRead + chunkSizeOf ino.size bytesRead) =
              ino.size - bytesRead - chunkSizeOf ino.size bytesRead := by
            simp only [UInt32.sub_eq_add_neg, UInt32.neg_add, UInt32.add_assoc]
          rw [hleft] at hrest
          have hcopied : (if (chunkSizeOf ino.size bytesRead).toNat < 2 ^ 31 then
              (chunkSizeOf ino.size bytesRead).toNat else 0) ≤
              (chunkSizeOf ino.size bytesRead).toNat := by
            split
            · exact Nat.le_refl _
            · exact Nat.zero_le _
          simp only [List.length_append, List.length_map, List.length_range]
          rcases chunkSizeOf_cases ino.size bytesRead with ⟨hlarge, hchunk⟩ | hchunk
          · have h512 : (512 : UInt32).toNat = 512 := rfl
            rw [hchunk] at hrest hcopied ⊢
            rw [UInt32.toNat_sub_of_le _ _ (UInt32.le_iff_toNat_le.mpr (by omega)), h512] at hrest
            omega
          · rw [hchunk] at hrest hcopied ⊢
            rw [UInt32.sub_self] at hrest
            change _ ≤ 0 at hrest
            omega

theorem fileBytes_length_le (d : Disk) (ino : NrInode) :
    (fileBytes d ino).1.length ≤ ino.size.toNat := by
  have h := readBlocks_length_le d ino ((ino.size + 511).toNat / 512) 0 0
  rwa [UInt32.sub_zero] at h

/-! ## Write, then cat -/

/-- The argument string `"name text"`. -/
def writeArgs (name text : CString) : CString :=
  name.append ((CString.ofBuffer [32]).append text)

theorem writeArgs_chars (name text : CString) :
    (writeArgs name text).chars = name.chars ++ 32 :: text.chars := rfl

theorem filenameOf_writeArgs {name text : CString} (hspace : 32 ∉ name.chars)
    (hlen : name.chars.length ≤ 27) : filenameOf (writeArgs name text).chars = name.chars := by
  obtain ⟨k, hk⟩ : ∃ k, 31 - name.chars.length = k + 1 := ⟨30 - name.chars.length, by omega⟩
  have hname : ∀ c, c ∈ name.chars → decide (c ≠ 32) = true := by
    intro c hc
    simpa using fun h : c = 32 => hspace (h ▸ hc)
  rw [filenameOf, writeArgs_chars, List.take_append, List.take_of_length_le (by omega), hk,
    List.take_succ_cons, List.takeWhile_append_of_pos hname, List.takeWhile_cons_of_neg (by simp),
    List.append_nil]

theorem payloadOf_writeArgs {name text : CString} (hspace : 32 ∉ name.chars)
    (hlen : name.chars.length ≤ 27) (hhead : text.chars.head? ≠ some 32) :
    payloadOf (writeArgs name text).chars = some text.chars := by
  have hdrop : text.chars.dropWhile (· = 32) = text.chars := by
    cases htext : text.chars with
    | nil => rfl
    | cons c cs =>
      rw [htext] at hhead
      exact List.dropWhile_cons_of_neg (by simpa using hhead)
  rw [payloadOf, filenameOf_writeArgs hspace hlen, writeArgs_chars, List.drop_left]
  simp [hdrop]

/-- `rexfs_cat` of an existing, non-empty file. -/
theorem rexfsCat_out {st : RexFS} {name : CString} {s : Slot} {bytes : List UInt8}
    (hm : st.fsMounted = true) (hname : name.chars ≠ [])
    (hfind : st.disk.findInode (·.isEntryOf 1 st.currentDirId name.chars) = some s)
    (hsize : (st.disk.inode s).size ≠ 0)
    (hbytes : fileBytes st.disk (st.disk.inode s) = (bytes, false)) :
    (st.rexfsCat name).out = st.out ++ bytes.map Print.char ++ [.char 10] := by
  simp only [rexfsCat, hm, hname, hfind, hsize, hbytes, Bool.not_true, if_false, Bool.false_eq_true]

/-- Searching the table gives the same slot when every slot agrees on the test. -/
theorem Disk.findInode_congr {d d' : Disk} {p : NrInode → Bool}
    (h : ∀ s, p (d'.inode s) = p (d.inode s)) : d'.findInode p = d.findInode p := by
  unfold Disk.findInode
  simp only [h]

/-- Storing an inode with the same id, parent, type and name leaves every name
where it was. -/
theorem findInode_setInode_sameEntry {d : Disk} {s : Slot} {ino : NrInode} {type dir : UInt16}
    {name : List UInt8}
    (h : ino.isEntryOf type dir name = (d.inode s).isEntryOf type dir name) :
    (d.setInode s ino).findInode (·.isEntryOf type dir name) =
      d.findInode (·.isEntryOf type dir name) := by
  refine Disk.findInode_congr fun t => ?_
  rw [Disk.setInode_inode]
  split
  · next hts => rw [h, hts]
  · rfl

section AfterWrite

variable {limit n : Nat} {data : List UInt8} {st st0 : RexFS} {s : Slot} {r : RexFS × NrInode × Nat}
  {bs leak : List Nat} {ind : Nat}

/-- After the file in slot `s` is written, every name resolves as before. -/
theorem Wrote.findInode (hW : Wrote limit data n (st.freeInodeBlocks (st.disk.inode s)).disk st0
    (clearPointers (st.disk.inode s)) r bs ind leak) (size : UInt32) (type dir : UInt16)
    (name : List UInt8) :
    (r.1.disk.setInode s { r.2.1 with size := size }).findInode (·.isEntryOf type dir name) =
      st.disk.findInode (·.isEntryOf type dir name) := by
  obtain ⟨db, ib, hr⟩ := hW.sameMeta
  rw [findInode_setInode_sameEntry]
  · exact Disk.findInode_congr fun t => by rw [hW.inode t]
  · rw [hW.inode s, hr]
    rfl

/-- After the file in slot `s` is written, reading it gives what its blocks hold. -/
theorem Wrote.fileBytes {d0 : Disk} {ino : NrInode}
    (hW : Wrote limit data n d0 st0 ino r bs ind leak)
    (hfull : bs.length ≤ blocksNeeded data.length) {ino' : NrInode}
    (hino : ino' = { r.2.1 with size := UInt32.ofNat (bytesIn data bs.length) }) :
    fileBytes (r.1.disk.setInode s ino') ino' = (data.take (bytesIn data bs.length), false) := by
  have hl := hW.filled.layout
  have hlayout : Layout r.1.disk ino' bs ind := by
    rw [hino]
    exact ⟨hl.len, hl.blocks, hl.direct, hl.indirect, hl.ind_lt, hl.short, hl.table⟩
  refine fileBytes_filled (hlayout.congr fun h0 => ?_) ?_ (by rw [hino]) hfull
  · have := (hW.filled.alloc.range ind (Filled.ind_mem h0)).1
    exact Disk.setInode_of_ge _ _ _ (by omega)
  · intro j hj
    have := (hW.filled.alloc.range bs[j] (by simp)).1
    rw [Disk.setInode_of_ge _ _ _ (by omega)]
    exact hW.filled.chunks j hj

end AfterWrite

/-- The common end of `write` and `writehex` stores all of the payload when the free blocks
together with those of the file suffice. -/
theorem storePayload_stored {capacity : UInt32} (hcap : 11 ≤ capacity) {st stm : RexFS}
    (hsound : Sound capacity st) {s : Slot} (hlive : (st.disk.inode s).id ≠ 0) {data : List UInt8}
    (tooLarge written : String)
    (hdisk : stm.disk = (st.freeInodeBlocks (st.disk.inode s)).disk)
    (hmount : stm.toMountState = st.toMountState)
    (hoob : stm.outOfBounds = (st.freeInodeBlocks (st.disk.inode s)).outOfBounds)
    (hmax : data.length ≤ 136192)
    (hroom : blocksWithIndex (blocksNeeded data.length) ≤
      st.disk.freeCount (st.activeSb.totalBlocks.toNat - 11) +
        (st.disk.blocksOf (st.disk.inode s)).length) :
    ∃ st', (storePayload tooLarge written stm s (clearPointers (st.disk.inode s)) data).1 = st' ∧
      st'.toMountState = st.toMountState ∧
      (∀ type dir name, st'.disk.findInode (·.isEntryOf type dir name) =
        st.disk.findInode (·.isEntryOf type dir name)) ∧
      (st'.disk.inode s).size.toNat = data.length ∧
      fileBytes st'.disk (st'.disk.inode s) = (data, false) := by
  have hoff : st.activeSb.dataOffset = 11 := by rw [hsound.active]; rfl
  have hlimit : 11 + blockLimit st.activeSb = totalSectors capacity := by
    rw [hsound.active]
    exact blockLimit_mounted hcap
  have htotal := totalSectors_le capacity
  have hfree : st.activeSb.totalBlocks.toNat - 11 = blockLimit st.activeSb := by
    have : st.activeSb.totalBlocks.toNat = totalSectors capacity := by rw [hsound.active]; rfl
    omega
  have hown := hsound.owned
  rw [← hlimit] at hown
  have hfits : blocksNeeded data.length ≤ 266 := by unfold blocksNeeded; omega
  obtain ⟨r, bs, ind, leak, hW, st', hst', hdisk', hmount', _⟩ :=
    storePayload_wrote tooLarge written hoff hfits hdisk hmount hoob
  refine ⟨st', hst', hmount', fun type dir name => by rw [hdisk', hW.findInode], ?_⟩
  -- all of the payload is written
  rw [hfree, ← freeCount_freeInodeBlocks hown hoff (by omega) hlive] at hroom
  obtain ⟨hcount, hbytes⟩ := hW.complete (by omega) hroom
  have hall : bytesIn data (blocksNeeded data.length) = data.length := by
    unfold bytesIn blocksNeeded
    omega
  have hinode : st'.disk.inode s = { r.2.1 with size := UInt32.ofNat r.2.2 } := by
    rw [hdisk', Disk.setInode_inode_self]
  have hsize : (st'.disk.inode s).size.toNat = data.length := by
    rw [hinode, hbytes, hall]
    exact UInt32.toNat_ofNat_of_le hmax
  refine ⟨hsize, ?_⟩
  have hino : st'.disk.inode s =
      { r.2.1 with size := UInt32.ofNat (bytesIn data bs.length) } := by
    rw [hinode, hbytes, hcount]
  have hread := hW.fileBytes (s := s) (by omega) hino
  rw [hcount, hall, List.take_length] at hread
  rw [hinode] at hread ⊢
  rw [hdisk']
  exact hread

/-- Write and read back. In every mounted state of a run, writing a text to an
existing file stores all of it when the free blocks together with the blocks of the
file suffice, and `cat` then prints the text and a newline. -/
theorem run_write_cat {capacity : UInt32} (hcap : 11 ≤ capacity) {st : RexFS}
    (h : (formattedRuns capacity).Reachable st) (hmounted : st.fsMounted = true) (name text : CString)
    {s : Slot} (hfile : st.disk.findInode (·.isEntryOf 1 st.currentDirId name.chars) = some s)
    (hname : name.chars ≠ []) (hspace : 32 ∉ name.chars) (hlen : name.chars.length ≤ 27)
    (hpos : 1 ≤ text.chars.length) (hmax : text.chars.length ≤ 136192)
    (hhead : text.chars.head? ≠ some 32)
    (hroom : blocksWithIndex (blocksNeeded text.chars.length) ≤
      st.disk.freeCount (st.activeSb.totalBlocks.toNat - 11) +
        (st.disk.blocksOf (st.disk.inode s)).length) :
    let st' := (st.rexfsWrite (writeArgs name text)).1
    (st'.disk.inode s).size.toNat = text.chars.length ∧
      (st'.rexfsCat name).out = st'.out ++ text.chars.map Print.char ++ [.char 10] := by
  have hsound := reachable_sound hcap h
  have hentry := isEntryOf_iff.mp (Disk.findInode_some hfile).1
  obtain ⟨st', hst', hmount, hfind, hsize, hread⟩ := storePayload_stored hcap hsound hentry.1
    "Error: Text payload exceeds maximum file size (133 KB).\n" "File written successfully.\n"
    rfl (freeInodeBlocks_toMountState st (st.disk.inode s)) rfl hmax hroom
  -- what the command does
  have hargs : (writeArgs name text).chars ≠ [] := by rw [writeArgs_chars]; simp
  have hpayload := payloadOf_writeArgs hspace hlen hhead
  have hres : Op.resolved st (.write (writeArgs name text)) = some s := by
    simp only [Op.resolved, hmounted, hargs, hpayload, filenameOf_writeArgs hspace hlen, ne_eq,
      not_false_eq_true, Option.isSome_some, and_self, if_true]
    exact hfile
  have heq : (st.rexfsWrite (writeArgs name text)).1 = st' := by
    rw [rexfsWrite_resolved hres, Op.payload, hpayload]
    exact hst'
  dsimp only
  rw [heq]
  refine ⟨hsize, rexfsCat_out (s := s) ?_ hname ?_ ?_ hread⟩
  · rw [hmount]
    exact hmounted
  · rw [hmount, hfind]
    exact hfile
  · intro h0
    rw [h0] at hsize
    exact absurd hsize.symm (Nat.ne_of_gt hpos)

/-- Writing `bye` over `hi`. -/
theorem run_write_cat_sample :
    (((sampleRun.rexfsWrite (writeArgs (.ofBuffer [97]) (.ofBuffer [98, 121, 101]))).1.disk.inode
      0).size.toNat = 3) :=
  (run_write_cat (by decide) sampleRun_reachable (by decide +kernel) (.ofBuffer [97])
    (.ofBuffer [98, 121, 101]) (s := 0) (by decide +kernel) (by decide) (by decide)
    (by decide) (by decide) (by decide) (by decide) (by decide +kernel)).1

end Newrex
