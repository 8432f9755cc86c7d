import Newrex.RexFS.Payload

/-!
# RexFS: what a command can do

`Op` are the commands that change the file system, `step` runs one of them, and
`Effect st op st'` lists everything a command can do to the disk and to the
mount state. `step_effect` says that every command has one of these effects; the
invariants of RexFS are all proved by cases on `Effect`, so that none of them
looks inside a command again.

The only assumption is that a mounted file system has `data_offset` 11, which
`rexfs_mkfs` writes.
-/

namespace Newrex

open RexFS

/-- The commands. `mkfs` comes with the capacity that ATA IDENTIFY reports, and
`writehex` with the address that `kmalloc` returns. -/
inductive Op
  | mkfs (capacity : UInt32)
  | mount
  | unmount
  | mkdir (name : CString)
  | cd (path : CString)
  | touch (name : CString)
  | rm (name : CString)
  | write (cmdArgs : CString)
  | writehex (cmdArgs : CString) (binBuf : UInt32)

namespace Op

/-- Runs one command. -/
def step (st : RexFS) : Op → RexFS
  | mkfs capacity => st.rexfsMkfs capacity
  | mount => st.rexfsMount
  | unmount => st.rexfsUnmount
  | mkdir name => st.rexfsMkdir name
  | cd path => st.rexfsCd path
  | touch name => st.rexfsTouch name
  | rm name => st.rexfsRm name
  | write cmdArgs => (st.rexfsWrite cmdArgs).1
  | writehex cmdArgs binBuf => (st.rexfsWritehex cmdArgs binBuf).1

/-- The bytes a `write` or `writehex` stores. -/
def payload : Op → List UInt8
  | write cmdArgs => (payloadOf cmdArgs.chars).getD []
  | writehex cmdArgs _ => (parseHexBytes ((payloadOf cmdArgs.chars).getD [])).1
  | _ => []

/-- `kmalloc` returned 0 for the buffer of a `writehex`. -/
def outOfMemory : Op → Bool
  | writehex _ binBuf => binBuf = 0
  | _ => false

/-- The slot of the inode that `rm`, `write` or `writehex` resolves; `none` when
the command ends before its search or the search fails. -/
def resolved (st : RexFS) : Op → Option Slot
  | rm name =>
    if st.fsMounted ∧ name.chars ≠ [] then
      st.disk.findInode (·.isEntry st.currentDirId name.chars)
    else none
  | write cmdArgs | writehex cmdArgs _ =>
    if st.fsMounted ∧ cmdArgs.chars ≠ [] ∧ (payloadOf cmdArgs.chars).isSome then
      st.disk.findInode (·.isEntryOf 1 st.currentDirId (filenameOf cmdArgs.chars))
    else none
  | _ => none

end Op

/-! ## Searches in the table -/

theorem Disk.findInode_some {d : Disk} {p : NrInode → Bool} {s : Slot}
    (h : d.findInode p = some s) : p (d.inode s) = true ∧ ∀ t, t < s → p (d.inode t) = false :=
  Search.find_finRange_eq_some.mp h

theorem Disk.findInode_none {d : Disk} {p : NrInode → Bool} (h : d.findInode p = none) (s : Slot) :
    p (d.inode s) = false :=
  Search.find_finRange_eq_none.mp h s

theorem isEntry_iff {dir : UInt16} {name : List UInt8} {ino : NrInode} :
    ino.isEntry dir name = true ↔ ino.id ≠ 0 ∧ ino.parentId = dir ∧ ino.cName = name := by
  simp [NrInode.isEntry, and_assoc]

theorem isEntryOf_iff {type dir : UInt16} {name : List UInt8} {ino : NrInode} :
    ino.isEntryOf type dir name = true ↔
      ino.id ≠ 0 ∧ ino.parentId = dir ∧ ino.type = type ∧ ino.cName = name := by
  simp [NrInode.isEntryOf, and_assoc]

/-! ## Effects -/

/-- The directory a `cd` command moves to. -/
inductive CdTarget (st : RexFS) : UInt16 → Prop
  | root : CdTarget st 0
  | parent {s : Slot} : st.currentDirId ≠ 0 →
      st.disk.findInode (·.id.toNat = st.currentDirId.toNat) = some s →
      CdTarget st (st.disk.inode s).parentId
  | child {s : Slot} {name : List UInt8} : name ≠ [] → name ≠ slash → name ≠ dotDot →
      st.disk.findInode (·.isEntryOf 2 st.currentDirId name) = some s →
      CdTarget st (UInt16.ofNat (st.disk.inode s).id.toNat)

/-- The disk after the read-modify-write of one inode slot. -/
def Disk.setInode (d : Disk) (s : Slot) (ino : NrInode) : Disk :=
  Function.update d s.sector ((d s.sector).putInode s.index ino)

/-- What a successful `mkfs` does to the disk. -/
structure Formatted (capacity : UInt32) (d d' : Disk) : Prop where
  superblock : d' 1 = (freshSuperblock capacity).toSector
  zeroed : ∀ l, 2 ≤ l → l ≤ 10 → d' l = Sector.zero
  frame : ∀ l, l = 0 ∨ 10 < l → d' l = d l

/-- Everything a command can do, up to the console. -/
inductive Effect (st : RexFS) (op : Op) (st' : RexFS) : Prop
  /-- Only messages. -/
  | same : st'.disk = st.disk → st'.toMountState = st.toMountState →
      st'.outOfBounds = st.outOfBounds → Effect st op st'
  /-- A successful `mkfs`. -/
  | format (capacity : UInt32) : op = .mkfs capacity → capacity ≠ 0 →
      Formatted capacity st.disk st'.disk →
      st'.toMountState = st.toMountState → st'.outOfBounds = st.outOfBounds → Effect st op st'
  /-- A successful `mount`. -/
  | mounted (sb : NrSuperblock) : op = .mount → sb = NrSuperblock.ofSector (st.disk 1) →
      sb.magic = rexfsMagic → sb.version = rexfsVersion →
      st'.disk = Function.update st.disk 1 { sb with cleanShutdown := 0 }.toSector →
      st'.toMountState = ⟨true, { sb with cleanShutdown := 0 }, 0⟩ →
      st'.outOfBounds = st.outOfBounds → Effect st op st'
  /-- A successful `unmount`. -/
  | unmounted (sb : NrSuperblock) : op = .unmount → st.fsMounted = true →
      sb = NrSuperblock.ofSector (st.disk 1) →
      st'.disk = Function.update st.disk 1 { sb with cleanShutdown := 1 }.toSector →
      st'.toMountState = ⟨false, st.activeSb, 0⟩ →
      st'.outOfBounds = st.outOfBounds → Effect st op st'
  /-- A `cd` to another directory. -/
  | chdir (id : UInt16) : st.fsMounted = true → CdTarget st id → st'.disk = st.disk →
      st'.toMountState = { st.toMountState with currentDirId := id } →
      st'.outOfBounds = st.outOfBounds → Effect st op st'
  /-- A new inode in the first free slot, for a name that no inode of the
  directory has. -/
  | create (s : Slot) (type : UInt16) (name : List UInt8) : st.fsMounted = true →
      op.resolved st = none → type = 1 ∨ type = 2 → name ≠ [] → (∀ c, c ∈ name → c ≠ 0) →
      st.disk.findInode (·.isEntry st.currentDirId name) = none →
      st.disk.findInode (·.id = 0) = some s →
      st'.disk = st.disk.setInode s (newInode s type st.currentDirId name) →
      st'.toMountState = st.toMountState → st'.outOfBounds = st.outOfBounds → Effect st op st'
  /-- A directory without entries is removed. -/
  | rmdir (s : Slot) (name : List UInt8) : st.fsMounted = true → op.resolved st = some s →
      st.disk.findInode (·.isEntry st.currentDirId name) = some s →
      (st.disk.inode s).type = 2 →
      (∀ t, (st.disk.inode t).id ≠ 0 →
        (st.disk.inode t).parentId.toNat ≠ (st.disk.inode s).id.toNat) →
      st'.disk = st.disk.setInode s { st.disk.inode s with id := 0 } →
      st'.toMountState = st.toMountState → st'.outOfBounds = st.outOfBounds → Effect st op st'
  /-- A file is removed: its blocks are freed, then its slot. -/
  | remove (s : Slot) (name : List UInt8) : st.fsMounted = true → op.resolved st = some s →
      st.disk.findInode (·.isEntry st.currentDirId name) = some s →
      (st.disk.inode s).type ≠ 2 →
      st'.disk = (st.freeInodeBlocks (st.disk.inode s)).disk.setInode s
        { st.disk.inode s with id := 0 } →
      st'.toMountState = st.toMountState →
      st'.outOfBounds = (st.freeInodeBlocks (st.disk.inode s)).outOfBounds → Effect st op st'
  /-- A `write` or `writehex` that is rejected after the blocks were freed. -/
  | freed (s : Slot) (name : List UInt8) : st.fsMounted = true → op.resolved st = some s →
      st.disk.findInode (·.isEntryOf 1 st.currentDirId name) = some s →
      op.outOfMemory = true ∨ 266 < blocksNeeded op.payload.length →
      st'.disk = (st.freeInodeBlocks (st.disk.inode s)).disk →
      st'.toMountState = st.toMountState →
      st'.outOfBounds = (st.freeInodeBlocks (st.disk.inode s)).outOfBounds → Effect st op st'
  /-- A `write` or `writehex` that stores (a prefix of) its payload. -/
  | rewrite (s : Slot) (name : List UInt8) (r : RexFS × NrInode × Nat) (bs : List Nat) (ind : Nat)
      (leak : List Nat) : st.fsMounted = true → op.resolved st = some s →
      st.disk.findInode (·.isEntryOf 1 st.currentDirId name) = some s →
      blocksNeeded op.payload.length ≤ 266 →
      Wrote (blockLimit st.activeSb) op.payload (blocksNeeded op.payload.length)
        (st.freeInodeBlocks (st.disk.inode s)).disk (st.freeInodeBlocks (st.disk.inode s))
        (clearPointers (st.disk.inode s)) r bs ind leak →
      st'.disk = r.1.disk.setInode s { r.2.1 with size := UInt32.ofNat r.2.2 } →
      st'.toMountState = st.toMountState → st'.outOfBounds = r.1.outOfBounds → Effect st op st'

/-! ## Every command has an effect -/

theorem storeInode_disk (st : RexFS) (s : Slot) (ino : NrInode) :
    (st.storeInode s ino).disk = st.disk.setInode s ino := by
  have hlt := s.sector_lt
  exact writeSector_disk st (by omega) _

theorem storeInode_toMountState (st : RexFS) (s : Slot) (ino : NrInode) :
    (st.storeInode s ino).toMountState = st.toMountState := rfl

theorem storeInode_outOfBounds (st : RexFS) (s : Slot) (ino : NrInode) :
    (st.storeInode s ino).outOfBounds = st.outOfBounds := rfl

/-- Zeroing a list of sectors. -/
theorem foldl_writeSector_zero (st : RexFS) {ls : List Nat} (hls : ∀ l, l ∈ ls → l < 2 ^ 28) :
    (∀ l, (ls.foldl (fun st l => st.writeSector l Sector.zero) st).disk l =
      if l ∈ ls then Sector.zero else st.disk l) ∧
    (ls.foldl (fun st l => st.writeSector l Sector.zero) st).toMountState = st.toMountState ∧
    (ls.foldl (fun st l => st.writeSector l Sector.zero) st).outOfBounds = st.outOfBounds := by
  induction ls generalizing st with
  | nil => exact ⟨fun l => by simp, rfl, rfl⟩
  | cons a ls ih =>
    obtain ⟨hd, hm, ho⟩ := ih (st.writeSector a Sector.zero) fun l hl =>
      hls l (List.mem_cons_of_mem _ hl)
    refine ⟨?_, hm, ho⟩
    intro l
    rw [List.foldl_cons, hd l, writeSector_disk st (hls a List.mem_cons_self)]
    by_cases hl : l ∈ ls
    · simp [hl]
    · by_cases ha : l = a
      · simp [ha]
      · simp [hl, ha]

theorem mkfs_formatted (st : RexFS) {capacity : UInt32} (h0 : capacity ≠ 0) :
    Formatted capacity st.disk (st.rexfsMkfs capacity).disk ∧
      (st.rexfsMkfs capacity).toMountState = st.toMountState ∧
      (st.rexfsMkfs capacity).outOfBounds = st.outOfBounds := by
  simp only [rexfsMkfs, h0, if_false]
  obtain ⟨st1, hst1⟩ : ∃ st1, st1 = ((st.printStringColor "[RexFS] Formatting partition...\n"
      colorLightCyan).writeSector 1 (freshSuperblock capacity).toSector).printStringColor
      "[RexFS] Superblock written.\n" colorLightGreen := ⟨_, rfl⟩
  obtain ⟨hd, hm, ho⟩ := foldl_writeSector_zero st1
    (show ∀ l, l ∈ [2, 3, 4, 5, 6, 7, 8, 9] → l < 2 ^ 28 by decide)
  have hd1 : st1.disk = Function.update st.disk 1 (freshSuperblock capacity).toSector := by
    rw [hst1]; rfl
  have hm1 : st1.toMountState = st.toMountState := by rw [hst1]; rfl
  have ho1 : st1.outOfBounds = st.outOfBounds := by rw [hst1]; rfl
  rw [← hst1]
  simp only [List.mem_cons, List.not_mem_nil, or_false] at hd
  generalize [2, 3, 4, 5, 6, 7, 8, 9].foldl (fun st l => st.writeSector l Sector.zero) st1 = st2
    at hd hm ho ⊢
  refine ⟨⟨?_, ?_, ?_⟩, hm.trans hm1, ho.trans ho1⟩
  · show Function.update st2.disk 10 Sector.zero 1 = _
    rw [Function.update_of_ne (by decide), hd 1, if_neg (by decide), hd1, Function.update_self]
  · intro l h2 h10
    show Function.update st2.disk 10 Sector.zero l = _
    by_cases hl : l = 10
    · rw [hl, Function.update_self]
    · rw [Function.update_of_ne hl, hd l, if_pos (by omega)]
  · intro l hl
    show Function.update st2.disk 10 Sector.zero l = _
    rw [Function.update_of_ne (by omega), hd l, if_neg (by omega), hd1,
      Function.update_of_ne (by omega)]

theorem mkfs_effect (st : RexFS) (capacity : UInt32) :
    Effect st (.mkfs capacity) (st.rexfsMkfs capacity) := by
  by_cases h0 : capacity = 0
  · simp only [rexfsMkfs, h0, if_true]
    exact .same rfl rfl rfl
  · obtain ⟨hformat, hm, ho⟩ := mkfs_formatted st h0
    exact .format capacity rfl h0 hformat hm ho

/-- `mount` of a disk with a valid superblock. -/
theorem mount_valid (st : RexFS) {sb : NrSuperblock} (hsb : sb = NrSuperblock.ofSector (st.disk 1))
    (hmagic : sb.magic = rexfsMagic) (hversion : sb.version = rexfsVersion) :
    st.rexfsMount.disk = Function.update st.disk 1 { sb with cleanShutdown := 0 }.toSector ∧
      st.rexfsMount.toMountState = ⟨true, { sb with cleanShutdown := 0 }, 0⟩ ∧
      st.rexfsMount.outOfBounds = st.outOfBounds := by
  subst hsb
  simp only [rexfsMount, hmagic, hversion, ne_eq, not_true_eq_false, if_false]
  refine ⟨?_, rfl, ?_⟩
  · split <;> rfl
  · split <;> rfl

theorem mount_effect (st : RexFS) : Effect st .mount st.rexfsMount := by
  by_cases hmagic : (NrSuperblock.ofSector (st.disk 1)).magic = rexfsMagic
  · by_cases hversion : (NrSuperblock.ofSector (st.disk 1)).version = rexfsVersion
    · obtain ⟨hd, hm, ho⟩ := mount_valid st rfl hmagic hversion
      exact .mounted _ rfl rfl hmagic hversion hd hm ho
    · simp only [rexfsMount, hmagic, hversion, ne_eq, not_true_eq_false, not_false_eq_true, if_false,
        if_true]
      exact .same rfl rfl rfl
  · simp only [rexfsMount, hmagic, ne_eq, not_false_eq_true, if_true]
    exact .same rfl rfl rfl

theorem unmount_effect (st : RexFS) : Effect st .unmount st.rexfsUnmount := by
  simp only [rexfsUnmount]
  split
  · exact .same rfl rfl rfl
  · next hm => exact .unmounted _ rfl (by simpa using hm) rfl rfl rfl rfl

theorem create_effect (st : RexFS) (op : Op) (type : UInt16) (usage created : String)
    (name : CString) (htype : type = 1 ∨ type = 2) (hres : op.resolved st = none) :
    Effect st op (createInode type usage created st name) := by
  simp only [createInode]
  split
  · exact .same rfl rfl rfl
  · next hm =>
    split
    · exact .same rfl rfl rfl
    · next hname =>
      split
      · exact .same rfl rfl rfl
      · next hnone =>
        split
        · next s hs =>
          exact .create s type name.chars (by simpa using hm) hres htype hname name.nulFree hnone hs
            (storeInode_disk st s _) rfl rfl
        · exact .same rfl rfl rfl

theorem cd_effect (st : RexFS) (path : CString) : Effect st (.cd path) (st.rexfsCd path) := by
  simp only [rexfsCd]
  split
  · exact .same rfl rfl rfl
  · next hm =>
    have hm' : st.fsMounted = true := by simpa using hm
    split
    · exact .same rfl rfl rfl
    · next hne =>
      split
      · exact .chdir 0 hm' .root rfl rfl rfl
      · next hslash =>
        split
        · split
          · exact .same rfl rfl rfl
          · next hcwd =>
            split
            · next s hs => exact .chdir _ hm' (.parent hcwd hs) rfl rfl rfl
            · exact .same rfl rfl rfl
        · next hdots =>
          split
          · next s hs => exact .chdir _ hm' (.child hne hslash hdots hs) rfl rfl rfl
          · exact .same rfl rfl rfl

theorem rm_effect (st : RexFS) (name : CString) : Effect st (.rm name) (st.rexfsRm name) := by
  simp only [rexfsRm]
  split
  · exact .same rfl rfl rfl
  · next hm =>
    have hm' : st.fsMounted = true := by simpa using hm
    split
    · exact .same rfl rfl rfl
    · next hname =>
      split
      · exact .same rfl rfl rfl
      · next s hs =>
        have hres : Op.resolved st (.rm name) = some s := by
          simp only [Op.resolved, hm', hname, ne_eq, not_false_eq_true, and_self, if_true, hs]
        split
        · exact .same rfl rfl rfl
        · next hempty =>
          by_cases htype : (st.disk.inode s).type = 2
          · have hkids : ∀ t, (st.disk.inode t).id ≠ 0 →
                (st.disk.inode t).parentId.toNat ≠ (st.disk.inode s).id.toNat := by
              intro t ht hp
              refine hempty ⟨htype, ?_⟩
              cases hfind : st.disk.findInode fun p => p.id ≠ 0 ∧ p.parentId.toNat =
                  (st.disk.inode s).id.toNat with
              | some _ => rfl
              | none =>
                have := Disk.findInode_none hfind t
                simp [ht, hp] at this
            simp only [if_pos htype]
            exact .rmdir s name.chars hm' hres hs htype hkids (storeInode_disk st s _) rfl rfl
          · simp only [if_neg htype]
            have hsame : (st.freeInodeBlocks (st.disk.inode s)).disk.inode s = st.disk.inode s :=
              Disk.inode_congr (fun l _ h => freeInodeBlocks_disk_of_ne _ _ (by omega)) s
            rw [hsame]
            have hmount := freeInodeBlocks_toMountState st (st.disk.inode s)
            refine .remove s name.chars hm' hres hs htype ?_ ?_ ?_
            · rw [printStringColor_disk, storeInode_disk]
            · rw [printStringColor_toMountState, storeInode_toMountState, hmount]
            · rw [printStringColor_outOfBounds, storeInode_outOfBounds]

section StorePayload

variable {st stm : RexFS} {s : Slot} {data : List UInt8} (tooLarge written : String)
  (hoff : st.activeSb.dataOffset = 11) (hfits : blocksNeeded data.length ≤ 266)
  (hdisk : stm.disk = (st.freeInodeBlocks (st.disk.inode s)).disk)
  (hmount : stm.toMountState = st.toMountState)
  (hoob : stm.outOfBounds = (st.freeInodeBlocks (st.disk.inode s)).outOfBounds)
include hoff hfits hdisk hmount hoob

/-- The common end of `write` and `writehex` for a payload that fits, from a state
`stm` that differs from the one after the freeing loops at most in the console. -/
theorem storePayload_logged :
    ∃ r bs ind leak, Wrote (blockLimit st.activeSb) data (blocksNeeded data.length)
        (st.freeInodeBlocks (st.disk.inode s)).disk (st.freeInodeBlocks (st.disk.inode s))
        (clearPointers (st.disk.inode s)) r bs ind leak ∧
      ∃ st', (storePayload tooLarge written stm s (clearPointers (st.disk.inode s)) data).1 = st' ∧
        st'.disk = r.1.disk.setInode s { r.2.1 with size := UInt32.ofNat r.2.2 } ∧
        st'.toMountState = st.toMountState ∧ st'.outOfBounds = r.1.outOfBounds ∧
        ∃ text, st'.out = stm.out ++ loopMessages (blocksNeeded data.length) bs leak ++
          [.literal text colorLightGreen] := by
  have hoff' : stm.activeSb.dataOffset = 11 := by rw [hmount]; exact hoff
  have hlim' : blockLimit stm.activeSb = blockLimit st.activeSb := by rw [hmount]
  have hmount' : stm.toMountState = (st.freeInodeBlocks (st.disk.inode s)).toMountState :=
    hmount.trans (freeInodeBlocks_toMountState _ _).symm
  have hF := Filled.nil (blockLimit st.activeSb) data stm.disk (st.disk.inode s)
  simp only [storePayload]
  split
  · next hlen =>
    -- an empty payload is a loop over no blocks
    have hzero : blocksNeeded data.length = 0 := by rw [hlen]; rfl
    refine ⟨(stm, clearPointers (st.disk.inode s), 0), [], 0, [],
      ⟨?_, by simp, hmount', hoob, SameMeta.refl _, ?_⟩, _, rfl, storeInode_disk stm s _, hmount, rfl,
      "File written (empty).\n", ?_⟩
    · rw [← hdisk]; exact hF
    · rw [hzero]
      exact .complete rfl rfl (by simp [bytesIn])
    · rw [hzero, loopMessages, if_pos List.length_nil, List.append_nil]
      rfl
  · obtain ⟨bs, ind, leak, hW, hout⟩ := writeBlocks_logged (blocksNeeded data.length) 0 stm _ [] 0
      hoff' hlim' hF rfl (Nat.zero_add _) hfits (by simp)
    have hbytes : bytesIn data 0 = 0 := by simp [bytesIn]
    rw [hbytes] at hW hout
    rw [hdisk] at hW
    rw [if_neg (Nat.not_lt.mpr hfits)]
    exact ⟨_, bs, ind, leak,
      { hW with mount := hW.mount.trans hmount', bounds := hW.bounds.trans hoob }, _, rfl,
      storeInode_disk _ s _, hW.mount.trans hmount, rfl, written,
      congrArg (· ++ [Print.literal written colorLightGreen]) hout⟩

theorem storePayload_wrote :
    ∃ r bs ind leak, Wrote (blockLimit st.activeSb) data (blocksNeeded data.length)
        (st.freeInodeBlocks (st.disk.inode s)).disk (st.freeInodeBlocks (st.disk.inode s))
        (clearPointers (st.disk.inode s)) r bs ind leak ∧
      ∃ st', (storePayload tooLarge written stm s (clearPointers (st.disk.inode s)) data).1 = st' ∧
        st'.disk = r.1.disk.setInode s { r.2.1 with size := UInt32.ofNat r.2.2 } ∧
        st'.toMountState = st.toMountState ∧ st'.outOfBounds = r.1.outOfBounds := by
  obtain ⟨r, bs, ind, leak, hW, st', heq, hd, hm, ho, _⟩ :=
    storePayload_logged tooLarge written hoff hfits hdisk hmount hoob
  exact ⟨r, bs, ind, leak, hW, st', heq, hd, hm, ho⟩

end StorePayload

theorem storePayload_effect {st stm : RexFS} {op : Op} {s : Slot} {name : List UInt8}
    (tooLarge written : String) (hm : st.fsMounted = true) (hoff : st.activeSb.dataOffset = 11)
    (hres : op.resolved st = some s)
    (hfind : st.disk.findInode (·.isEntryOf 1 st.currentDirId name) = some s)
    (hdisk : stm.disk = (st.freeInodeBlocks (st.disk.inode s)).disk)
    (hmount : stm.toMountState = st.toMountState)
    (hoob : stm.outOfBounds = (st.freeInodeBlocks (st.disk.inode s)).outOfBounds) :
    Effect st op
      (storePayload tooLarge written stm s (clearPointers (st.disk.inode s)) op.payload).1 := by
  by_cases hfits : blocksNeeded op.payload.length ≤ 266
  · obtain ⟨r, bs, ind, leak, hW, st', heq, hd, hm', ho⟩ :=
      storePayload_wrote tooLarge written hoff hfits hdisk hmount hoob
    rw [heq]
    exact .rewrite s name r bs ind leak hm hres hfind hfits hW hd hm' ho
  · have hlarge : blocksNeeded op.payload.length > 266 := Nat.lt_of_not_le hfits
    have hlen : ¬ op.payload.length = 0 := by
      intro h0
      rw [h0] at hlarge
      exact absurd hlarge (by decide)
    simp only [storePayload, if_neg hlen, if_pos hlarge]
    exact .freed s name hm hres hfind (Or.inr hlarge) hdisk hmount hoob

/-- What it takes for `rm` to find an entry. -/
theorem Op.resolved_rm {st : RexFS} {name : CString} {s : Slot}
    (h : Op.resolved st (.rm name) = some s) :
    st.fsMounted = true ∧ name.chars ≠ [] ∧
      st.disk.findInode (·.isEntry st.currentDirId name.chars) = some s := by
  simp only [Op.resolved] at h
  split at h
  · next hc => exact ⟨hc.1, hc.2, h⟩
  · exact absurd h (by simp)

/-- What it takes for `write` or `writehex` to find a file. -/
theorem Op.resolved_write {st : RexFS} (cmdArgs : CString) {s : Slot}
    (h : Op.resolved st (.write cmdArgs) = some s) :
    st.fsMounted = true ∧ cmdArgs.chars ≠ [] ∧
      (∃ text, payloadOf cmdArgs.chars = some text ∧ Op.payload (.write cmdArgs) = text) ∧
      st.disk.findInode (·.isEntryOf 1 st.currentDirId (filenameOf cmdArgs.chars)) = some s := by
  simp only [Op.resolved] at h
  split at h
  · next hc =>
    obtain ⟨text, htext⟩ := Option.isSome_iff_exists.mp hc.2.2
    exact ⟨hc.1, hc.2.1, ⟨text, htext, by simp [Op.payload, htext]⟩, h⟩
  · exact absurd h (by simp)

theorem Op.resolved_write_of_find {st : RexFS} {cmdArgs : CString} {text : List UInt8} {s : Slot}
    (hm : st.fsMounted = true) (hargs : cmdArgs.chars ≠ [])
    (htext : payloadOf cmdArgs.chars = some text)
    (hfind : st.disk.findInode (·.isEntryOf 1 st.currentDirId (filenameOf cmdArgs.chars)) =
      some s) : Op.resolved st (.write cmdArgs) = some s := by
  have hcond : st.fsMounted = true ∧ cmdArgs.chars ≠ [] ∧ (payloadOf cmdArgs.chars).isSome :=
    ⟨hm, hargs, Option.isSome_of_eq_some htext⟩
  rw [Op.resolved, if_pos hcond, hfind]

/-- A resolved slot holds a live inode. -/
theorem Op.resolved_live {st : RexFS} {op : Op} {s : Slot} (h : op.resolved st = some s) :
    (st.disk.inode s).id ≠ 0 := by
  cases op with
  | rm name =>
    simp only [Op.resolved] at h
    split at h
    · exact (isEntry_iff.mp (Disk.findInode_some h).1).1
    · cases h
  | write cmdArgs | writehex cmdArgs _ =>
    exact (isEntryOf_iff.mp (Disk.findInode_some (Op.resolved_write cmdArgs h).2.2.2).1).1
  | _ => cases h

/-- `rexfs_rm` on an existing entry. -/
theorem rexfsRm_resolved {st : RexFS} {name : CString} {s : Slot}
    (h : Op.resolved st (.rm name) = some s) :
    (∃ text, st.rexfsRm name = st.printStringColor text colorLightRed ∧
      (st.disk.inode s).type = 2) ∨
    ∃ st1, st1 = (if (st.disk.inode s).type = 2 then st
        else st.freeInodeBlocks (st.disk.inode s)) ∧
      st.rexfsRm name = (st1.storeInode s { st1.disk.inode s with id := 0 }).printStringColor
        "Removed successfully.\n" colorLightGreen := by
  simp only [Op.resolved] at h
  split at h
  · next hc =>
    simp only [rexfsRm, hc.1, hc.2, h, Bool.not_true, if_false, Bool.false_eq_true]
    split
    · next hdir => exact Or.inl ⟨_, rfl, hdir.1⟩
    · exact Or.inr ⟨_, rfl, rfl⟩
  · cases h

/-- `rexfs_rm` that finds no entry prints a message and does nothing else. -/
theorem rexfsRm_unresolved {st : RexFS} {name : CString}
    (h : Op.resolved st (.rm name) = none) :
    ∃ text, st.rexfsRm name = st.printStringColor text colorLightRed := by
  unfold rexfsRm
  split
  · exact ⟨_, rfl⟩
  · next hm =>
    split
    · exact ⟨_, rfl⟩
    · next hname =>
      have hm' : st.fsMounted = true := by simpa using hm
      have hnone : st.disk.findInode (·.isEntry st.currentDirId name.chars) = none := by
        simpa [Op.resolved, hm', hname] using h
      rw [hnone]
      exact ⟨_, rfl⟩

/-- `rexfs_write` on an existing file. -/
theorem rexfsWrite_resolved {st : RexFS} {cmdArgs : CString} {s : Slot}
    (h : Op.resolved st (.write cmdArgs) = some s) :
    st.rexfsWrite cmdArgs =
      storePayload "Error: Text payload exceeds maximum file size (133 KB).\n"
        "File written successfully.\n" (st.freeInodeBlocks (st.disk.inode s)) s
        (clearPointers (st.disk.inode s)) (Op.payload (.write cmdArgs)) := by
  obtain ⟨hm, hargs, ⟨text, htext, hpay⟩, hfind⟩ := Op.resolved_write cmdArgs h
  simp only [rexfsWrite, hm, hargs, htext, hfind, hpay, Bool.not_true, if_false, Bool.false_eq_true]

/-- `rexfs_write` that finds no file prints a message and does nothing else. -/
theorem rexfsWrite_unresolved {st : RexFS} {cmdArgs : CString}
    (h : Op.resolved st (.write cmdArgs) = none) :
    ∃ text, (st.rexfsWrite cmdArgs).1 = st.printStringColor text colorLightRed := by
  simp only [rexfsWrite]
  split
  · exact ⟨_, rfl⟩
  · next hm =>
    split
    · exact ⟨_, rfl⟩
    · next hargs =>
      split
      · exact ⟨_, rfl⟩
      · next text htext =>
        split
        · exact ⟨_, rfl⟩
        · next s hs =>
          have hres := Op.resolved_write_of_find (by simpa using hm) hargs htext hs
          exact absurd (h.symm.trans hres) (Option.some_ne_none s).symm

/-- The state in which `rexfs_writehex` has parsed its payload. -/
def hexParsed (st : RexFS) (s : Slot) (odd : Bool) : RexFS :=
  if odd then
    (st.freeInodeBlocks (st.disk.inode s)).printStringColor
      "Warning: Odd number of hex characters. Ignoring trailing digit.\n" colorYellow
  else st.freeInodeBlocks (st.disk.inode s)

theorem hexParsed_facts (st : RexFS) (s : Slot) (odd : Bool) :
    (hexParsed st s odd).disk = (st.freeInodeBlocks (st.disk.inode s)).disk ∧
      (hexParsed st s odd).toMountState = st.toMountState ∧
      (hexParsed st s odd).outOfBounds = (st.freeInodeBlocks (st.disk.inode s)).outOfBounds := by
  unfold hexParsed
  split
  · rw [printStringColor_disk, printStringColor_toMountState, printStringColor_outOfBounds]
    exact ⟨rfl, freeInodeBlocks_toMountState _ _, rfl⟩
  · exact ⟨rfl, freeInodeBlocks_toMountState _ _, rfl⟩

/-- `rexfs_writehex` on an existing file: without a buffer it stops after freeing
the blocks, else it goes on as `rexfs_write` does. -/
theorem rexfsWritehex_resolved {st : RexFS} {cmdArgs : CString} {binBuf : UInt32} {s : Slot}
    (h : Op.resolved st (.writehex cmdArgs binBuf) = some s) :
    (binBuf = 0 ∧ st.rexfsWritehex cmdArgs binBuf =
      ((st.freeInodeBlocks (st.disk.inode s)).printStringColor
        "Error: Out of memory for parsing hex.\n" colorLightRed, .noMemory)) ∨
    (binBuf ≠ 0 ∧ ∃ odd, st.rexfsWritehex cmdArgs binBuf =
      storePayload "Error: Payload exceeds maximum file size (133 KB).\n"
        "Hex file written successfully.\n" (hexParsed st s odd) s
        (clearPointers (st.disk.inode s)) (Op.payload (.writehex cmdArgs binBuf))) := by
  obtain ⟨hm, hargs, ⟨text, htext, _⟩, hfind⟩ := Op.resolved_write cmdArgs h
  have hpay : Op.payload (.writehex cmdArgs binBuf) = (parseHexBytes text).1 := by
    simp [Op.payload, htext]
  simp only [rexfsWritehex, hm, hargs, htext, hfind, hpay, Bool.not_true, if_false,
    Bool.false_eq_true]
  by_cases hbuf : binBuf = 0
  · exact Or.inl ⟨hbuf, by rw [if_pos hbuf]⟩
  · exact Or.inr ⟨hbuf, (parseHexBytes text).2, by rw [if_neg hbuf]; rfl⟩

/-- `rexfs_writehex` that finds no file prints a message and does nothing else. -/
theorem rexfsWritehex_unresolved {st : RexFS} {cmdArgs : CString} {binBuf : UInt32}
    (h : Op.resolved st (.writehex cmdArgs binBuf) = none) :
    ∃ text, (st.rexfsWritehex cmdArgs binBuf).1 = st.printStringColor text colorLightRed := by
  simp only [rexfsWritehex]
  split
  · exact ⟨_, rfl⟩
  · next hm =>
    split
    · exact ⟨_, rfl⟩
    · next hargs =>
      split
      · exact ⟨_, rfl⟩
      · next text htext =>
        split
        · exact ⟨_, rfl⟩
        · next s hs =>
          have hres := Op.resolved_write_of_find (by simpa using hm) hargs htext hs
          exact absurd (h.symm.trans hres) (Option.some_ne_none s).symm

theorem write_effect (st : RexFS) (hoff : st.fsMounted = true → st.activeSb.dataOffset = 11)
    (cmdArgs : CString) : Effect st (.write cmdArgs) (st.rexfsWrite cmdArgs).1 := by
  rcases hres : Op.resolved st (.write cmdArgs) with _ | s
  · obtain ⟨text, heq⟩ := rexfsWrite_unresolved hres
    rw [heq]
    exact .same rfl rfl rfl
  · obtain ⟨hm, _, _, hfind⟩ := Op.resolved_write cmdArgs hres
    rw [rexfsWrite_resolved hres]
    exact storePayload_effect _ _ hm (hoff hm) hres hfind rfl (freeInodeBlocks_toMountState _ _) rfl

theorem writehex_effect (st : RexFS) (hoff : st.fsMounted = true → st.activeSb.dataOffset = 11)
    (cmdArgs : CString) (binBuf : UInt32) :
    Effect st (.writehex cmdArgs binBuf) (st.rexfsWritehex cmdArgs binBuf).1 := by
  rcases hres : Op.resolved st (.writehex cmdArgs binBuf) with _ | s
  · obtain ⟨text, heq⟩ := rexfsWritehex_unresolved hres
    rw [heq]
    exact .same rfl rfl rfl
  · obtain ⟨hm, _, _, hfind⟩ := Op.resolved_write cmdArgs hres
    rcases rexfsWritehex_resolved hres with ⟨hbuf, heq⟩ | ⟨_, odd, heq⟩
    · have hmem : Op.outOfMemory (.writehex cmdArgs binBuf) = true := by
        simp [Op.outOfMemory, hbuf]
      rw [heq]
      refine .freed s _ hm hres hfind (Or.inl hmem) ?_ ?_ ?_
      · rw [printStringColor_disk]
      · rw [printStringColor_toMountState, freeInodeBlocks_toMountState]
      · rw [printStringColor_outOfBounds]
    · obtain ⟨hdisk, hmount, hoob⟩ := hexParsed_facts st s odd
      rw [heq]
      exact storePayload_effect _ _ hm (hoff hm) hres hfind hdisk hmount hoob

/-- Every command has one of the effects, on a file system whose `data_offset` is
11 when it is mounted. -/
theorem step_effect (st : RexFS) (hoff : st.fsMounted = true → st.activeSb.dataOffset = 11)
    (op : Op) : Effect st op (op.step st) := by
  cases op with
  | mkfs capacity => exact mkfs_effect st capacity
  | mount => exact mount_effect st
  | unmount => exact unmount_effect st
  | mkdir name => exact create_effect st _ 2 _ _ name (Or.inr rfl) rfl
  | cd path => exact cd_effect st path
  | touch name => exact create_effect st _ 1 _ _ name (Or.inl rfl) rfl
  | rm name => exact rm_effect st name
  | write cmdArgs => exact write_effect st hoff cmdArgs
  | writehex cmdArgs binBuf => exact writehex_effect st hoff cmdArgs binBuf

end Newrex
