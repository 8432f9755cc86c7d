import Newrex.Lib.WriteLog
import Newrex.RexFS.Commands

/-!
# RexFS: the sectors that a command writes

`Logged` ties the write log of the model to its disk. Commands other than `mkfs`, `mount` and
`unmount` write the inode table, the bitmap and the blocks that `allocate_free_block` returned,
so that the number of data blocks bounds all of them.

* `Area n`: a write that stays among `n` data blocks, and marks none beyond them in the bitmap;
* `Confined n st st'`: from `st` to `st'` all writes are of this kind;
* `Op.confined`: this is so for every command, in every state with `data_offset` 11.
-/

namespace Newrex

open RexFS WriteLog

/-! ## Writes -/

/-- From `st` to `st'` the writes `ws` were made, in this order. -/
structure Logged (ws : List (Nat × Sector)) (st st' : RexFS) : Prop where
  log : st'.writes = st.writes ++ ws
  disk : st'.disk = applyWrites ws st.disk

namespace Logged

variable {ws vs : List (Nat × Sector)} {st st' st'' : RexFS}

theorem nil (hw : st'.writes = st.writes) (hd : st'.disk = st.disk) : Logged [] st st' :=
  ⟨by rw [hw, List.append_nil], hd⟩

theorem trans (h : Logged ws st st') (h' : Logged vs st' st'') : Logged (ws ++ vs) st st'' where
  log := by rw [h'.log, h.log, List.append_assoc]
  disk := by rw [h'.disk, h.disk, applyWrites_append]

theorem writeSector (st : RexFS) (lba : Nat) (buffer : Sector) :
    Logged [(lba % 2 ^ 28, buffer)] st (st.writeSector lba buffer) := ⟨rfl, rfl⟩

theorem print (h : Logged ws st st') (text : String) (color : UInt8) :
    Logged ws st (st'.printStringColor text color) :=
  ⟨h.log, h.disk⟩

theorem write (h : Logged ws st st') (lba : Nat) (buffer : Sector) :
    Logged (ws ++ [(lba % 2 ^ 28, buffer)]) st (st'.writeSector lba buffer) :=
  h.trans (Logged.writeSector st' lba buffer)

end Logged

/-- Only blocks with a number below `n` are marked. -/
def Sector.MarksBelow (n : Nat) (bitmap : Sector) : Prop := ∀ i, bitmap.bit i = true → i < n

/-- A write to the inode table, to the bitmap, or to one of `n` data blocks. -/
structure Area (n : Nat) (w : Nat × Sector) : Prop where
  low : 2 ≤ w.1
  high : w.1 < 11 + n
  small : w.1 < 2 ^ 28
  bitmap : w.1 = 10 → w.2.MarksBelow n

/-- A sector of the inode table or a data block. -/
theorem Area.of_ne {n lba : Nat} (hlow : 2 ≤ lba) (hhigh : lba < 11 + n) (hsmall : lba < 2 ^ 28)
    (hne : lba ≠ 10) (buffer : Sector) : Area n (lba, buffer) :=
  ⟨hlow, hhigh, hsmall, fun h => absurd h hne⟩

/-- From `st` to `st'` the writes stay among `n` data blocks, and the mount flag and the cached
superblock stay. -/
structure Confined (n : Nat) (st st' : RexFS) : Prop where
  mounted : st'.fsMounted = st.fsMounted
  cached : st'.activeSb = st.activeSb
  writes : ∃ ws, Logged ws st st' ∧ ∀ w, w ∈ ws → Area n w
  marks : (st'.disk 10).MarksBelow n

namespace Confined

variable {n : Nat} {st st' st'' : RexFS}

theorem refl (h : (st.disk 10).MarksBelow n) : Confined n st st :=
  ⟨rfl, rfl, ⟨[], .nil rfl rfl, fun _ hw => absurd hw List.not_mem_nil⟩, h⟩

/-- A step that writes nothing. -/
theorem silent (h : Confined n st st') (hm : st''.fsMounted = st'.fsMounted)
    (hsb : st''.activeSb = st'.activeSb) (hw : st''.writes = st'.writes)
    (hd : st''.disk = st'.disk) : Confined n st st'' := by
  obtain ⟨ws, hws, harea⟩ := h.writes
  refine ⟨hm.trans h.mounted, hsb.trans h.cached, ⟨ws, ?_, harea⟩, by rw [hd]; exact h.marks⟩
  have htrans := hws.trans (Logged.nil hw hd)
  rwa [List.append_nil] at htrans

theorem trans (h : Confined n st st') (h' : Confined n st' st'') : Confined n st st'' := by
  obtain ⟨ws, hws, hall⟩ := h.writes
  obtain ⟨vs, hvs, hall'⟩ := h'.writes
  refine ⟨h'.mounted.trans h.mounted, h'.cached.trans h.cached, ⟨ws ++ vs, hws.trans hvs, ?_⟩,
    h'.marks⟩
  intro w hw
  exact (List.mem_append.mp hw).elim (hall w) (hall' w)

theorem print (h : Confined n st st') (text : String) (color : UInt8) :
    Confined n st (st'.printStringColor text color) := h.silent rfl rfl rfl rfl

theorem write (h : Confined n st st') {lba : Nat} {buffer : Sector} (harea : Area n (lba, buffer)) :
    Confined n st (st'.writeSector lba buffer) := by
  obtain ⟨ws, hws, hall⟩ := h.writes
  have hlba : lba % 2 ^ 28 = lba := Nat.mod_eq_of_lt harea.small
  refine ⟨h.mounted, h.cached, ⟨_, hws.write lba buffer, ?_⟩, ?_⟩
  · intro w hw
    rcases List.mem_append.mp hw with hold | hnew
    · exact hall w hold
    · rw [List.mem_singleton.mp hnew, hlba]
      exact harea
  · rw [writeSector_disk st' harea.small]
    by_cases h10 : lba = 10
    · rw [h10, Function.update_self]
      exact harea.bitmap h10
    · rw [Function.update_of_ne (Ne.symm h10)]
      exact h.marks

theorem store (h : Confined n st st') (s : Slot) (ino : NrInode) :
    Confined n st (st'.storeInode s ino) := by
  have hlt := s.sector_lt
  exact h.write (Area.of_ne s.two_le_sector (by omega) (by omega) (by omega) _)

theorem bitmap (h : Confined n st st') {bitmap : Sector} (hmarks : bitmap.MarksBelow n) :
    Confined n st (st'.writeSector 10 bitmap) :=
  h.write ⟨Nat.le_add_left 2 8, Nat.lt_add_right n (Nat.lt_succ_self 10),
    show 10 < 2 ^ 28 by decide, fun _ => hmarks⟩

/-- `free_block` clears a bit, or leaves the bitmap as it is. -/
theorem freeBlock (h : Confined n st st') (b : Nat) : Confined n st (st'.freeBlock b) := by
  unfold RexFS.freeBlock
  dsimp only
  split
  · exact h
  · split
    · refine h.bitmap fun i hi => h.marks i ?_
      have hlt := Sector.bit_lt hi
      rw [Sector.bit_unmark (st'.disk 10) hlt, Bool.and_eq_true] at hi
      exact hi.1
    · exact (h.bitmap h.marks).silent rfl rfl rfl rfl

theorem freeAll (h : Confined n st st') (bs : List Nat) : Confined n st (st'.freeAll bs) := by
  induction bs generalizing st' with
  | nil => exact h
  | cons b bs ih => exact ih (h.freeBlock b)

theorem freeInodeBlocks (h : Confined n st st') (ino : NrInode) :
    Confined n st (st'.freeInodeBlocks ino) := by
  rw [freeInodeBlocks_eq]
  exact (h.freeAll _).freeAll _

/-- `allocate_free_block` marks a block below the limit and returns its LBA. -/
theorem allocate (h : Confined n st st') (hoff : st.activeSb.dataOffset = 11)
    (hn : min (blockLimit st.activeSb) 4096 ≤ n) :
    Confined n st st'.allocateFreeBlock.1 ∧
      (st'.allocateFreeBlock.2 = 0 ∨ 11 ≤ st'.allocateFreeBlock.2 ∧
        st'.allocateFreeBlock.2 < 11 + n ∧ st'.allocateFreeBlock.2 < 11 + 4096) := by
  have hoff' : st'.activeSb.dataOffset = 11 := by rw [h.cached, hoff]
  rcases allocateFreeBlock_cases st' hoff' with ⟨heq, _⟩ |
    ⟨idx, buf, hidx, hlim, _, _, hbuf, heq⟩
  · rw [heq]
    exact ⟨h, Or.inl rfl⟩
  · have hin : idx < n := by
      rw [h.cached] at hlim
      omega
    rw [heq]
    refine ⟨h.bitmap fun i hi => ?_, Or.inr ⟨by dsimp only; omega, by dsimp only; omega,
      by dsimp only; omega⟩⟩
    have hlt := Sector.bit_lt hi
    rw [hbuf i hlt, Bool.or_eq_true, decide_eq_true_eq] at hi
    rcases hi with hold | rfl
    · exact h.marks i hold
    · exact hin

end Confined

/-! ## The allocation loop -/

section Loop

variable {n : Nat} {st st' : RexFS}

/-- The indirect block of an inode under construction: none yet, or one of the data blocks. -/
def IndexIn (n : Nat) (ino : NrInode) : Prop :=
  ino.indirectBlock = 0 ∨ 11 ≤ ino.indirectBlock.toNat ∧ ino.indirectBlock.toNat < 11 + n

theorem ensureIndirect_confined (h : Confined n st st') (hoff : st.activeSb.dataOffset = 11)
    (hn : min (blockLimit st.activeSb) 4096 ≤ n) {ino : NrInode} (hino : IndexIn n ino) :
    Confined n st (st'.ensureIndirect ino).1 ∧
      ∀ ino', (st'.ensureIndirect ino).2 = some ino' →
        11 ≤ ino'.indirectBlock.toNat ∧ ino'.indirectBlock.toNat < 11 + n := by
  obtain ⟨halloc, hlba⟩ := h.allocate hoff hn
  unfold ensureIndirect
  dsimp only
  split
  · split
    · exact ⟨halloc.print _ _, fun ino' h' => by cases h'⟩
    · next hne =>
      obtain ⟨hlow, hhigh, hsmall⟩ := hlba.resolve_left hne
      refine ⟨halloc.write (Area.of_ne (by omega) hhigh (by omega) (by omega) _), fun ino' h' => ?_⟩
      cases h'
      show 11 ≤ (UInt16.ofNat st'.allocateFreeBlock.2).toNat ∧
        (UInt16.ofNat st'.allocateFreeBlock.2).toNat < 11 + n
      rw [UInt16.toNat_ofNat', Nat.mod_eq_of_lt (by omega)]
      exact ⟨hlow, hhigh⟩
  · next hne =>
    refine ⟨h, fun ino' h' => ?_⟩
    cases h'
    exact hino.resolve_left hne

/-- The allocation loop, by induction on the number of blocks left. -/
theorem writeBlocks_confined (hoff : st.activeSb.dataOffset = 11)
    (hn : min (blockLimit st.activeSb) 4096 ≤ n) (data : List UInt8) (left k : Nat) (st' : RexFS)
    (ino : NrInode) (bytesWritten : Nat) (h : Confined n st st') (hino : IndexIn n ino) :
    Confined n st (writeBlocks data left k st' ino bytesWritten).1 := by
  induction left generalizing k st' ino bytesWritten with
  | zero => exact h
  | succ left ih =>
    obtain ⟨halloc, hlba⟩ := h.allocate hoff hn
    unfold writeBlocks
    dsimp only
    split
    · exact halloc.print _ _
    · next hne =>
      obtain ⟨hlow, hhigh, hsmall⟩ := hlba.resolve_left hne
      have hwrite := halloc.write (Area.of_ne (by omega) hhigh (by omega) (by omega)
        (chunkSector data bytesWritten (min (data.length - bytesWritten) 512)))
      split
      · exact ih _ _ _ _ hwrite hino
      · obtain ⟨hind, hindex⟩ := ensureIndirect_confined hwrite hoff hn hino
        split
        · next st2 heq =>
          rw [heq] at hind
          exact hind
        · next st2 ino2 heq =>
          rw [heq] at hind hindex
          obtain ⟨hlow2, hhigh2⟩ := hindex ino2 rfl
          have hsmall2 := ino2.indirectBlock.toNat_lt
          exact ih _ _ _ _ (hind.write (Area.of_ne (by omega) hhigh2 (by omega) (by omega) _))
            (Or.inr ⟨hlow2, hhigh2⟩)

theorem storePayload_confined (h : Confined n st st') (hoff : st.activeSb.dataOffset = 11)
    (hn : min (blockLimit st.activeSb) 4096 ≤ n) (tooLarge written : String) (s : Slot)
    (ino : NrInode) (data : List UInt8) :
    Confined n st (storePayload tooLarge written st' s (clearPointers ino) data).1 := by
  unfold storePayload
  split
  · exact (h.store s _).print _ _
  · split
    · exact h.print _ _
    · have hblocks := writeBlocks_confined hoff hn data (blocksNeeded data.length) 0 st'
        (clearPointers ino) 0 h (Or.inl rfl)
      exact (hblocks.store s _).print _ _

end Loop

/-! ## The commands -/

section Commands

variable {n : Nat} {st : RexFS}

theorem createInode_confined (hmarks : (st.disk 10).MarksBelow n) (type : UInt16)
    (usage created : String) (name : CString) :
    Confined n st (createInode type usage created st name) := by
  have hrefl := Confined.refl hmarks
  unfold createInode
  split
  · exact hrefl.print _ _
  · split
    · exact hrefl.print _ _
    · split
      · exact hrefl.print _ _
      · split
        · next s _ => exact (hrefl.store s _).print _ _
        · exact hrefl.print _ _

theorem rexfsCd_confined (hmarks : (st.disk 10).MarksBelow n) (path : CString) :
    Confined n st (st.rexfsCd path) := by
  have hrefl := Confined.refl hmarks
  unfold rexfsCd
  split
  · exact hrefl.print _ _
  · split
    · exact hrefl.print _ _
    · split
      · exact hrefl.silent rfl rfl rfl rfl
      · split
        · split
          · exact hrefl
          · split
            · exact hrefl.silent rfl rfl rfl rfl
            · exact hrefl
        · split
          · exact hrefl.silent rfl rfl rfl rfl
          · exact hrefl.print _ _

theorem rexfsRm_confined (hmarks : (st.disk 10).MarksBelow n) (name : CString) :
    Confined n st (st.rexfsRm name) := by
  have hrefl := Confined.refl hmarks
  unfold rexfsRm
  split
  · exact hrefl.print _ _
  · split
    · exact hrefl.print _ _
    · split
      · exact hrefl.print _ _
      · next s _ =>
        dsimp only
        split
        · exact hrefl.print _ _
        · refine Confined.print (Confined.store ?_ s _) _ _
          split
          · exact hrefl
          · exact hrefl.freeInodeBlocks _

theorem rexfsWrite_confined (hmarks : (st.disk 10).MarksBelow n)
    (hoff : st.fsMounted = true → st.activeSb.dataOffset = 11)
    (hn : min (blockLimit st.activeSb) 4096 ≤ n) (cmdArgs : CString) :
    Confined n st (st.rexfsWrite cmdArgs).1 := by
  have hrefl := Confined.refl hmarks
  unfold rexfsWrite
  split
  · exact hrefl.print _ _
  · next hm =>
    split
    · exact hrefl.print _ _
    · split
      · exact hrefl.print _ _
      · split
        · exact hrefl.print _ _
        · exact storePayload_confined (hrefl.freeInodeBlocks _) (hoff (by simpa using hm)) hn
            _ _ _ _ _

theorem rexfsWritehex_confined (hmarks : (st.disk 10).MarksBelow n)
    (hoff : st.fsMounted = true → st.activeSb.dataOffset = 11)
    (hn : min (blockLimit st.activeSb) 4096 ≤ n) (cmdArgs : CString) (binBuf : UInt32) :
    Confined n st (st.rexfsWritehex cmdArgs binBuf).1 := by
  have hrefl := Confined.refl hmarks
  unfold rexfsWritehex
  split
  · exact hrefl.print _ _
  · next hm =>
    split
    · exact hrefl.print _ _
    · split
      · exact hrefl.print _ _
      · split
        · exact hrefl.print _ _
        · next s _ =>
          have hfree := hrefl.freeInodeBlocks (st.disk.inode s)
          dsimp only
          split
          · exact hfree.print _ _
          · refine storePayload_confined ?_ (hoff (by simpa using hm)) hn _ _ _ _ _
            split
            · exact hfree.print _ _
            · exact hfree

end Commands

/-- The commands that write the superblock. -/
def Op.isSuper : Op → Bool
  | .mkfs _ | .mount | .unmount => true
  | _ => false

/-- All other commands write inodes, bitmap, data and indirect blocks only, and stay among the
data blocks of the mounted superblock. -/
theorem Op.confined {n : Nat} {st : RexFS}
    (hoff : st.fsMounted = true → st.activeSb.dataOffset = 11)
    (hn : min (blockLimit st.activeSb) 4096 ≤ n) (hmarks : (st.disk 10).MarksBelow n)
    {op : Op} (hop : op.isSuper = false) : Confined n st (op.step st) := by
  cases op with
  | mkfs _ | mount | unmount => cases hop
  | mkdir name | touch name => exact createInode_confined hmarks _ _ _ name
  | cd path => exact rexfsCd_confined hmarks path
  | rm name => exact rexfsRm_confined hmarks name
  | write cmdArgs => exact rexfsWrite_confined hmarks hoff hn cmdArgs
  | writehex cmdArgs binBuf => exact rexfsWritehex_confined hmarks hoff hn cmdArgs binBuf

/-- The bitmap has 4096 bits. -/
theorem Sector.marksBelow_bits (bitmap : Sector) : bitmap.MarksBelow 4096 :=
  fun _ hi => Sector.bit_lt hi

end Newrex
