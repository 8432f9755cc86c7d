import Newrex.RexFS.CrashOrder
import Newrex.RexFS.Files

/-!
# RexFS: running out of disk space

A `write` that finds no free block stores what it has written so far. When it stops at the
allocation of a data block, that is consistent: the size of the file is what its blocks hold,
`cat` prints it, and no block is lost. When it stops at the allocation of the indirect block,
the eleventh data block is allocated, written and counted, but nothing refers to it
(`eleventh_block_leaks`).

* `Settled` is the consistency of the file after the command;
* `settled_of_noBlock` and `not_settled_of_noIndex` are the two ways out of the loop;
* `Op.outOfSpace_iff` says how much room a payload needs, and `out_of_space_iff` is the result:
  the eleventh block is lost exactly when the file finds eleven free blocks.
-/

namespace Newrex

open RexFS

/-! ## What is stored -/

/-- The data blocks that an inode lists, without its indirect block. -/
def Disk.dataBlocksOf (d : Disk) (ino : NrInode) : List Nat :=
  pointerRefs (List.ofFn ino.directBlocks) ++
    if ino.indirectBlock = 0 then [] else pointerRefs (d ino.indirectBlock.toNat).pointers

/-- What `cat` prints for a file with these bytes. -/
def catOutput (bytes : List UInt8) : List Print :=
  if bytes = [] then [] else bytes.map Print.char ++ [.char 10]

/-- The messages of the allocation loop. -/
def SpaceMessage (p : Print) : Prop :=
  p = .literal "Error: Out of disk space.\n" colorLightRed ∨
    p = .literal "Error: Out of disk space for indirect index.\n" colorLightRed

namespace Op

/-- The console output of a command. -/
def printed (st : RexFS) (op : Op) : List Print := (op.step st).out.drop st.out.length

/-- The command ran out of disk space, and said so. -/
def OutOfSpace (st : RexFS) (op : Op) : Prop := ∃ p, p ∈ op.printed st ∧ SpaceMessage p

/-- The commands with the allocation loop. -/
def Stores : Op → Prop
  | write _ | writehex _ _ => True
  | _ => False

/-- The free blocks that the command finds for the file in slot `s`: those of the bitmap and
those that the file had. -/
def roomFor (st : RexFS) (s : Slot) : Nat :=
  st.disk.freeCount (min (blockLimit st.activeSb) 4096) +
    (st.disk.blocksOf (st.disk.inode s)).length

/-- After the command on the file in slot `s`,
* the size of the file is the number of bytes of the payload that its blocks hold;
* `cat` prints these bytes, under any name that finds the file;
* the file refers to all blocks that the command allocated: they were clear before it, or it
  freed them itself. -/
structure Settled (st : RexFS) (op : Op) (s : Slot) : Prop where
  size : ((op.step st).disk.inode s).size.toNat =
    bytesIn op.payload ((op.step st).disk.dataBlocksOf ((op.step st).disk.inode s)).length
  cat : ∀ name : CString, name.chars ≠ [] →
    st.disk.findInode (·.isEntryOf 1 st.currentDirId name.chars) = some s →
    ((op.step st).rexfsCat name).out = (op.step st).out ++
      catOutput (op.payload.take ((op.step st).disk.inode s).size.toNat)
  noLeak : ∀ i, (op.step st).disk.bit i = true →
    st.disk.bit i = false ∨ 11 + i ∈ st.disk.blocksOf (st.disk.inode s) →
    11 + i ∈ (op.step st).disk.blocksOf ((op.step st).disk.inode s)

end Op

theorem Disk.blocksOf_eq_dataBlocksOf (d : Disk) (ino : NrInode) :
    d.blocksOf ino = d.dataBlocksOf ino ++ tableOf ino.indirectBlock.toNat := by
  unfold Disk.blocksOf Disk.dataBlocksOf tableOf
  by_cases h0 : ino.indirectBlock = 0
  · simp [h0]
  · have hne : ino.indirectBlock.toNat ≠ 0 := fun h => h0 (UInt16.toNat.inj h)
    rw [if_neg h0, if_neg h0, if_neg hne, List.append_assoc]

theorem Layout.dataBlocksOf_eq {d : Disk} {ino : NrInode} {bs : List Nat} {ind : Nat}
    (h : Layout d ino bs ind) : d.dataBlocksOf ino = bs := by
  have hval : ino.indirectBlock.toNat = ind := by
    have := h.ind_lt
    rw [h.indirect, UInt16.toNat_ofNat']
    omega
  have hblocks := h.blocksOf_eq
  rw [Disk.blocksOf_eq_dataBlocksOf, hval] at hblocks
  exact List.append_cancel_right hblocks

/-! ## The command and its loop -/

theorem RexFS.freeAll_out (st : RexFS) (bs : List Nat) : (st.freeAll bs).out = st.out := by
  have hone : ∀ (st : RexFS) b, (st.freeBlock b).out = st.out := by
    intro st b
    simp only [freeBlock]
    split
    · rfl
    · split
      · rfl
      · rfl
  induction bs generalizing st with
  | nil => rfl
  | cons b bs ih => exact (ih (st.freeBlock b)).trans (hone st b)

theorem RexFS.freeInodeBlocks_out (st : RexFS) (ino : NrInode) :
    (st.freeInodeBlocks ino).out = st.out := by
  rw [freeInodeBlocks_eq, freeAll_out, freeAll_out]

theorem SpaceMessage.color {text : String} {color : UInt8}
    (h : SpaceMessage (.literal text color)) : color = colorLightRed := by
  rcases h with h | h
  · exact (Print.literal.inj h).2
  · exact (Print.literal.inj h).2

/-- The loop prints one of its messages unless it writes all blocks. -/
theorem exists_spaceMessage_iff {n : Nat} {bs leak : List Nat} :
    (∃ p, p ∈ loopMessages n bs leak ∧ SpaceMessage p) ↔ bs.length ≠ n := by
  unfold loopMessages
  split
  case isTrue h => simp [h]
  case isFalse h =>
    refine ⟨fun _ => h, fun _ => ?_⟩
    split
    · exact ⟨_, List.mem_singleton_self _, Or.inl rfl⟩
    · exact ⟨_, List.mem_singleton_self _, Or.inr rfl⟩

/-- What the common end of `write` and `writehex` prints, from a state `stm` in which `pre` has
been printed. -/
theorem storePayload_space {st stm st' : RexFS} {s : Slot} {data : List UInt8} {pre : List Print}
    {tooLarge written : String} (hoff : st.activeSb.dataOffset = 11)
    (hfits : blocksNeeded data.length ≤ 266)
    (hdisk : stm.disk = (st.freeInodeBlocks (st.disk.inode s)).disk)
    (hmount : stm.toMountState = st.toMountState)
    (hoob : stm.outOfBounds = (st.freeInodeBlocks (st.disk.inode s)).outOfBounds)
    (hout : stm.out = st.out ++ pre) (hpre : ∀ p, p ∈ pre → ¬ SpaceMessage p)
    (hst' : st' = (storePayload tooLarge written stm s (clearPointers (st.disk.inode s)) data).1) :
    ∃ r bs ind leak, Wrote (blockLimit st.activeSb) data (blocksNeeded data.length)
        (st.freeInodeBlocks (st.disk.inode s)).disk (st.freeInodeBlocks (st.disk.inode s))
        (clearPointers (st.disk.inode s)) r bs ind leak ∧
      st'.disk = r.1.disk.setInode s { r.2.1 with size := UInt32.ofNat r.2.2 } ∧
      st'.toMountState = st.toMountState ∧
      ((∃ p, p ∈ st'.out.drop st.out.length ∧ SpaceMessage p) ↔
        bs.length ≠ blocksNeeded data.length) := by
  obtain ⟨r, bs, ind, leak, hW, st1, heq, hd, hm, _, text, hmsg⟩ :=
    storePayload_logged tooLarge written hoff hfits hdisk hmount hoob
  rw [heq] at hst'
  subst hst'
  refine ⟨r, bs, ind, leak, hW, hd, hm, ?_⟩
  have hprinted : st'.out.drop st.out.length =
      pre ++ (loopMessages (blocksNeeded data.length) bs leak ++
        [.literal text colorLightGreen]) := by
    rw [hmsg, hout, List.append_assoc, List.append_assoc, List.drop_left]
  rw [hprinted, ← @exists_spaceMessage_iff (blocksNeeded data.length) bs leak]
  constructor
  · rintro ⟨p, hp, hspace⟩
    rcases List.mem_append.mp hp with hp | hp
    · exact absurd hspace (hpre p hp)
    rcases List.mem_append.mp hp with hp | hp
    · exact ⟨p, hp, hspace⟩
    · rw [List.mem_singleton.mp hp] at hspace
      exact absurd hspace.color (by decide)
  · rintro ⟨p, hp, hspace⟩
    exact ⟨p, List.mem_append_right _ (List.mem_append_left _ hp), hspace⟩

/-- A payload that is too large is refused with another message. -/
theorem storePayload_tooLarge {st stm st' : RexFS} {s : Slot} {ino : NrInode} {data : List UInt8}
    {pre : List Print} {tooLarge written : String} (hlarge : ¬ blocksNeeded data.length ≤ 266)
    (hout : stm.out = st.out ++ pre) (hpre : ∀ p, p ∈ pre → ¬ SpaceMessage p)
    (hmsg : ¬ SpaceMessage (.literal tooLarge colorLightRed))
    (hst' : st' = (storePayload tooLarge written stm s ino data).1) {p : Print}
    (hp : p ∈ st'.out.drop st.out.length) : ¬ SpaceMessage p := by
  have hlen : ¬ data.length = 0 := by
    intro h0
    rw [h0] at hlarge
    exact hlarge (by decide)
  rw [storePayload, if_neg hlen, if_pos (Nat.lt_of_not_le hlarge)] at hst'
  have hprinted : st'.out = st.out ++ (pre ++ [.literal tooLarge colorLightRed]) := by
    rw [hst', ← List.append_assoc, ← hout]
    rfl
  rw [hprinted, List.drop_left] at hp
  rcases List.mem_append.mp hp with hp | hp
  · exact hpre p hp
  · rw [List.mem_singleton.mp hp]
    exact hmsg

/-- Freeing blocks prints nothing. -/
theorem RexFS.freeInodeBlocks_appends (st : RexFS) (ino : NrInode) :
    (st.freeInodeBlocks ino).out = st.out ++ [] := by
  rw [freeInodeBlocks_out, List.append_nil]

theorem RexFS.hexParsed_out (st : RexFS) (s : Slot) (odd : Bool) :
    ∃ pre, (hexParsed st s odd).out = st.out ++ pre ∧ ∀ p, p ∈ pre → ¬ SpaceMessage p := by
  unfold hexParsed
  split
  · refine ⟨_, congrArg (· ++ [Print.literal _ colorYellow])
      (freeInodeBlocks_out st (st.disk.inode s)), fun p hp hspace => ?_⟩
    rw [List.mem_singleton.mp hp] at hspace
    exact absurd hspace.color (by decide)
  · exact ⟨[], freeInodeBlocks_appends st (st.disk.inode s), by simp⟩

/-- A command that runs out of disk space has got to its allocation loop. -/
theorem Op.OutOfSpace.entered {st : RexFS} {op : Op} {s : Slot} (h : op.OutOfSpace st)
    (hop : op.Stores) (hres : op.resolved st = some s) :
    op.outOfMemory = false ∧ blocksNeeded op.payload.length ≤ 266 := by
  obtain ⟨p, hp, hspace⟩ := h
  cases op with
  | write cmdArgs =>
    refine ⟨rfl, Decidable.byContradiction fun hlarge => ?_⟩
    exact storePayload_tooLarge hlarge (freeInodeBlocks_appends st (st.disk.inode s))
      (fun _ hp => absurd hp List.not_mem_nil) (by simp [SpaceMessage])
      (congrArg Prod.fst (rexfsWrite_resolved hres)) hp hspace
  | writehex cmdArgs binBuf =>
    rcases rexfsWritehex_resolved hres with ⟨_, heq⟩ | ⟨hbuf, odd, heq⟩
    · have hmsg : (Op.step st (.writehex cmdArgs binBuf)).out =
          st.out ++ [.literal "Error: Out of memory for parsing hex.\n" colorLightRed] := by
        rw [Op.step, heq, ← freeInodeBlocks_out st (st.disk.inode s)]
        rfl
      rw [Op.printed, hmsg, List.drop_left, List.mem_singleton] at hp
      rw [hp] at hspace
      simp [SpaceMessage] at hspace
    · refine ⟨by simpa [Op.outOfMemory] using hbuf, Decidable.byContradiction fun hlarge => ?_⟩
      obtain ⟨pre, hout, hpre⟩ := hexParsed_out st s odd
      exact storePayload_tooLarge hlarge hout hpre (by simp [SpaceMessage])
        (congrArg Prod.fst heq) hp hspace
  | _ => exact absurd hop not_false

/-- What a command with a payload that fits has written, and that it runs out of disk space
if the loop ends before all blocks are written. -/
theorem Op.stored {st : RexFS} {op : Op} {s : Slot} (hoff : st.activeSb.dataOffset = 11)
    (hop : op.Stores) (hres : op.resolved st = some s) (hmem : op.outOfMemory = false)
    (hfits : blocksNeeded op.payload.length ≤ 266) :
    ∃ r bs ind leak, Wrote (blockLimit st.activeSb) op.payload (blocksNeeded op.payload.length)
        (st.freeInodeBlocks (st.disk.inode s)).disk (st.freeInodeBlocks (st.disk.inode s))
        (clearPointers (st.disk.inode s)) r bs ind leak ∧
      (op.step st).disk = r.1.disk.setInode s { r.2.1 with size := UInt32.ofNat r.2.2 } ∧
      (op.step st).toMountState = st.toMountState ∧
      (op.OutOfSpace st ↔ bs.length ≠ blocksNeeded op.payload.length) := by
  cases op with
  | write cmdArgs =>
    exact storePayload_space hoff hfits rfl (freeInodeBlocks_toMountState _ _) rfl
      (freeInodeBlocks_appends st (st.disk.inode s)) (fun _ hp => absurd hp List.not_mem_nil)
      (congrArg Prod.fst (rexfsWrite_resolved hres))
  | writehex cmdArgs binBuf =>
    rcases rexfsWritehex_resolved hres with ⟨hbuf, _⟩ | ⟨_, odd, heq⟩
    · simp [Op.outOfMemory, hbuf] at hmem
    · obtain ⟨hdisk, hmount, hoob⟩ := hexParsed_facts st s odd
      obtain ⟨pre, hout, hpre⟩ := hexParsed_out st s odd
      exact storePayload_space hoff hfits hdisk hmount hoob hout hpre (congrArg Prod.fst heq)
  | _ => exact absurd hop not_false

/-! ## The two ways out of the loop -/

section Stored

variable {st : RexFS} {op : Op} {s : Slot} {r : RexFS × NrInode × Nat} {bs leak : List Nat}
  {ind : Nat}

/-- The blocks that the loop found free. -/
theorem Wrote.roomFor_eq {n : Nat} {data : List UInt8} (h : MountedOwned st)
    (hlive : (st.disk.inode s).id ≠ 0)
    (hW : Wrote (blockLimit st.activeSb) data n (st.freeInodeBlocks (st.disk.inode s)).disk
      (st.freeInodeBlocks (st.disk.inode s)) (clearPointers (st.disk.inode s)) r bs ind leak)
    (hfull : Full (blockLimit st.activeSb) r.1.disk) :
    Op.roomFor st s = blocksWithIndex bs.length + leak.length := by
  have hcount := hW.freeCount
  rw [freeCount_freed h.owned h.offset hlive, hfull.freeCount_eq_zero, Nat.zero_add] at hcount
  exact hcount

/-- The inode stored at the end lists the blocks of the loop. -/
theorem Wrote.layout_stored {limit n : Nat} {data : List UInt8} {d0 : Disk} {st0 : RexFS}
    {ino : NrInode} (hW : Wrote limit data n d0 st0 ino r bs ind leak) (size : UInt32) :
    Layout (r.1.disk.setInode s { r.2.1 with size := size }) { r.2.1 with size := size } bs
      ind := by
  have hl := hW.filled.layout
  have hlayout : Layout r.1.disk { r.2.1 with size := size } bs ind :=
    ⟨hl.len, hl.blocks, hl.direct, hl.indirect, hl.ind_lt, hl.short, hl.table⟩
  refine hlayout.congr fun h0 => ?_
  have := (hW.filled.alloc.range ind (Filled.ind_mem h0)).1
  exact Disk.setInode_of_ge _ _ _ (by omega)

theorem rexfsCat_catOutput {st : RexFS} {name : CString} {s : Slot} {bytes : List UInt8}
    (hm : st.fsMounted = true) (hname : name.chars ≠ [])
    (hfind : st.disk.findInode (·.isEntryOf 1 st.currentDirId name.chars) = some s)
    (hsize : (st.disk.inode s).size.toNat = bytes.length)
    (hbytes : fileBytes st.disk (st.disk.inode s) = (bytes, false)) :
    (st.rexfsCat name).out = st.out ++ catOutput bytes := by
  cases bytes with
  | nil =>
    have h0 : (st.disk.inode s).size = 0 := UInt32.toNat.inj hsize
    simp [rexfsCat, hm, hname, hfind, h0, catOutput]
  | cons b bytes =>
    have h0 : (st.disk.inode s).size ≠ 0 := by
      intro h0
      rw [h0] at hsize
      exact absurd hsize.symm (Nat.succ_ne_zero _)
    rw [rexfsCat_out hm hname hfind h0 hbytes, catOutput, if_neg (List.cons_ne_nil b bytes),
      List.append_assoc]

/-- The inode that the command leaves, with its blocks. -/
theorem Wrote.inode_layout {st' : RexFS} {data : List UInt8} {n size : Nat}
    (hW : Wrote (blockLimit st.activeSb) data n (st.freeInodeBlocks (st.disk.inode s)).disk
      (st.freeInodeBlocks (st.disk.inode s)) (clearPointers (st.disk.inode s)) r bs ind leak)
    (hdisk : st'.disk = r.1.disk.setInode s { r.2.1 with size := UInt32.ofNat r.2.2 })
    (hsize : r.2.2 = size) :
    st'.disk.inode s = { r.2.1 with size := UInt32.ofNat size } ∧
      Layout st'.disk (st'.disk.inode s) bs ind := by
  have hinode : st'.disk.inode s = { r.2.1 with size := UInt32.ofNat size } := by
    rw [hdisk, Disk.setInode_inode_self, hsize]
  refine ⟨hinode, ?_⟩
  rw [hinode, hdisk, hsize]
  exact hW.layout_stored _

/-- Out of space for a data block: the file is consistent, and did not find eleven blocks. -/
theorem settled_of_noBlock (h : MountedOwned st) (hres : op.resolved st = some s)
    (hW : Wrote (blockLimit st.activeSb) op.payload (blocksNeeded op.payload.length)
      (st.freeInodeBlocks (st.disk.inode s)).disk (st.freeInodeBlocks (st.disk.inode s))
      (clearPointers (st.disk.inode s)) r bs ind leak)
    (hdisk : (op.step st).disk = r.1.disk.setInode s { r.2.1 with size := UInt32.ofNat r.2.2 })
    (hmount : (op.step st).toMountState = st.toMountState)
    (hlen : bs.length < blocksNeeded op.payload.length) (hleak : leak = [])
    (hfull : Full (blockLimit st.activeSb) r.1.disk)
    (hbytes : r.2.2 = bytesIn op.payload bs.length) :
    op.Settled st s ∧ Op.roomFor st s ≠ 11 := by
  have hlive := Op.resolved_live hres
  obtain ⟨hinode, hlayout⟩ := hW.inode_layout hdisk hbytes
  have hsize : ((op.step st).disk.inode s).size.toNat = bytesIn op.payload bs.length := by
    rw [hinode]
    exact UInt32.toNat_ofNat_of_le (bytesIn_le hlayout.len)
  refine ⟨⟨?_, fun name hname hfind => ?_, fun i hset hbefore => ?_⟩, ?_⟩
  · rw [hsize, hlayout.dataBlocksOf_eq]
  · have hread := hW.fileBytes (s := s) (by omega) hinode
    have hstored : r.1.disk.setInode s ((op.step st).disk.inode s) = (op.step st).disk := by
      rw [hinode, hdisk, hbytes]
    rw [hstored] at hread
    rw [hsize]
    refine rexfsCat_catOutput (s := s) ?_ hname ?_ ?_ hread
    · rw [hmount]
      exact h.mounted
    · rw [hmount, hdisk, hW.findInode]
      exact hfind
    · rw [hsize, List.length_take]
      exact (Nat.min_eq_left (Nat.min_le_right _ _)).symm
  · have hi := Sector.bit_lt hset
    have hclear : (st.freeInodeBlocks (st.disk.inode s)).disk.bit i = false := by
      rw [freeInodeBlocks_bit st h.offset (h.owned.indirect_ne hlive) hi]
      rcases hbefore with hbefore | hbefore
      · rw [hbefore, Bool.false_and]
      · simp [hbefore]
    rw [hdisk, Disk.setInode_bit, hW.filled.alloc.bits i hi, hclear, Bool.false_or,
      decide_eq_true_iff, hleak, List.append_nil] at hset
    rw [hlayout.blocksOf_eq]
    exact hset
  · rw [hW.roomFor_eq h hlive hfull, hleak, blocksWithIndex]
    split
    · simp only [List.length_nil]
      omega
    · simp only [List.length_nil]
      omega

/-- Out of space for the indirect block: the file counts a block that it does not have. -/
theorem not_settled_of_noIndex (h : MountedOwned st) (hres : op.resolved st = some s)
    (hW : Wrote (blockLimit st.activeSb) op.payload (blocksNeeded op.payload.length)
      (st.freeInodeBlocks (st.disk.inode s)).disk (st.freeInodeBlocks (st.disk.inode s))
      (clearPointers (st.disk.inode s)) r bs ind leak)
    (hdisk : (op.step st).disk = r.1.disk.setInode s { r.2.1 with size := UInt32.ofNat r.2.2 })
    (hlen : bs.length = 10) (hn : 10 < blocksNeeded op.payload.length) (hleak : leak.length = 1)
    (hfull : Full (blockLimit st.activeSb) r.1.disk) (hbytes : r.2.2 = bytesIn op.payload 11) :
    ¬ op.Settled st s ∧ Op.roomFor st s = 11 := by
  refine ⟨fun hsettled => ?_, ?_⟩
  · obtain ⟨hinode, hlayout⟩ := hW.inode_layout hdisk hbytes
    have hsize := hsettled.size
    rw [hlayout.dataBlocksOf_eq, hlen, hinode] at hsize
    have hval : (UInt32.ofNat (bytesIn op.payload 11)).toNat = bytesIn op.payload 11 :=
      UInt32.toNat_ofNat_of_le (bytesIn_le (by decide))
    rw [hval] at hsize
    unfold bytesIn at hsize
    unfold blocksNeeded at hn
    omega
  · rw [hW.roomFor_eq h (Op.resolved_live hres) hfull, hlen, hleak]
    rfl

end Stored

/-- A payload that fits into a file runs out of disk space if and only if the room is less than
its blocks, with one more for the indirect block. -/
theorem Op.outOfSpace_iff {st : RexFS} (h : MountedOwned st) {op : Op} (hop : op.Stores) {s : Slot}
    (hres : op.resolved st = some s) (hmem : op.outOfMemory = false)
    (hfits : blocksNeeded op.payload.length ≤ 266) :
    op.OutOfSpace st ↔ Op.roomFor st s < blocksWithIndex (blocksNeeded op.payload.length) := by
  obtain ⟨r, bs, ind, leak, hW, _, _, hspace⟩ := Op.stored h.offset hop hres hmem hfits
  have hlive := Op.resolved_live hres
  rw [hspace]
  cases hW.outcome with
  | complete hlen _ _ =>
    have hcount := hW.freeCount
    rw [freeCount_freed h.owned h.offset hlive, hlen] at hcount
    refine ⟨fun hne => absurd hlen hne, fun hlt => ?_⟩
    unfold Op.roomFor at hlt
    omega
  | noBlock hlen hleak hfull _ =>
    have hlt := blocksWithIndex_lt hlen
    rw [hW.roomFor_eq h hlive hfull, hleak]
    exact ⟨fun _ => hlt, fun _ => Nat.ne_of_lt hlen⟩
  | noIndex hlen hn hleak hfull _ =>
    rw [hW.roomFor_eq h hlive hfull, hlen, hleak, blocksWithIndex, if_neg (Nat.lt_irrefl 10),
      blocksWithIndex, if_pos hn]
    exact ⟨fun _ => Nat.succ_lt_succ hn, fun _ => Nat.ne_of_lt hn⟩

/-- The two ways out, with the room that leads to them. -/
theorem Op.OutOfSpace.settled_or {st : RexFS} (h : MountedOwned st) {op : Op} (hop : op.Stores)
    {s : Slot} (hres : op.resolved st = some s) (hspace : op.OutOfSpace st) :
    op.Settled st s ∧ Op.roomFor st s ≠ 11 ∨ ¬ op.Settled st s ∧ Op.roomFor st s = 11 := by
  obtain ⟨hmem, hfits⟩ := hspace.entered hop hres
  obtain ⟨r, bs, ind, leak, hW, hdisk, hmount, hshort⟩ := Op.stored h.offset hop hres hmem hfits
  cases hW.outcome with
  | complete hlen _ _ => exact absurd hlen (hshort.mp hspace)
  | noBlock hlen hleak hfull hbytes =>
    exact Or.inl (settled_of_noBlock h hres hW hdisk hmount hlen hleak hfull hbytes)
  | noIndex hlen hn hleak hfull hbytes =>
    exact Or.inr (not_settled_of_noIndex h hres hW hdisk hlen hn hleak hfull hbytes)

/-- A `write` or `writehex` that runs out of disk space leaves its file consistent, and loses
no block, if and only if it did not find exactly eleven free blocks. -/
theorem out_of_space_iff {st : RexFS} (h : MountedOwned st) {op : Op} (hop : op.Stores) {s : Slot}
    (hres : op.resolved st = some s) (hspace : op.OutOfSpace st) :
    op.Settled st s ↔ Op.roomFor st s ≠ 11 := by
  rcases hspace.settled_or h hop hres with ⟨hsettled, hroom⟩ | ⟨hlost, hroom⟩
  · exact ⟨fun _ => hroom, fun _ => hsettled⟩
  · exact ⟨fun hsettled => absurd hsettled hlost, fun hne => absurd hroom hne⟩

/-! ### Small disks -/

/-- A disk with the empty file `a`. -/
def sampleFile (capacity : UInt32) : RexFS :=
  [Op.touch (.ofBuffer [97])].foldl Op.step
    ((boot fun _ => Sector.zero).rexfsMkfs capacity).rexfsMount

theorem sampleFile_mountedOwned {capacity : UInt32} (hcap : 11 ≤ capacity)
    (hmounted : (sampleFile capacity).fsMounted = true) : MountedOwned (sampleFile capacity) := by
  have hinit : (formattedRuns capacity).Reachable
      ((boot fun _ => Sector.zero).rexfsMkfs capacity).rexfsMount := .init ⟨_, rfl, rfl⟩
  have hreach : (formattedRuns capacity).Reachable (sampleFile capacity) := by
    refine hinit.run ?_
    simp only [List.mem_singleton]
    rintro op rfl _
    exact ⟨by simp, by decide, rfl⟩
  have hsound := reachable_sound hcap hreach
  refine ⟨hmounted, by rw [hsound.active]; rfl, ?_⟩
  rw [hsound.active, blockLimit_mounted hcap]
  exact hsound.owned

/-- `write a bb…b`. -/
def sampleWrite (n : Nat) : Op := .write (.ofBuffer ([97, 32] ++ List.replicate n 98))

/-- Two blocks are to be written to a disk with room for one. -/
theorem out_of_space_sample :
    (sampleWrite 513).OutOfSpace (sampleFile 12) ∧ (sampleWrite 513).Settled (sampleFile 12) 0 := by
  have howned : MountedOwned (sampleFile 12) :=
    sampleFile_mountedOwned (by decide) (by decide +kernel)
  have hop : (sampleWrite 513).Stores := trivial
  have hres : (sampleWrite 513).resolved (sampleFile 12) = some 0 := by decide +kernel
  have hlen : (sampleWrite 513).payload.length = 513 := by decide +kernel
  have hroom : Op.roomFor (sampleFile 12) 0 = 1 := by decide +kernel
  have hspace : (sampleWrite 513).OutOfSpace (sampleFile 12) := by
    rw [Op.outOfSpace_iff howned hop hres rfl (by rw [hlen]; decide), hroom, hlen]
    decide
  refine ⟨hspace, (out_of_space_iff howned hop hres hspace).mpr ?_⟩
  rw [hroom]
  decide

/-- Eleven blocks are to be written to a disk with room for eleven. -/
theorem eleventh_block_leaks :
    MountedOwned (sampleFile 22) ∧ (sampleWrite 5121).Stores ∧
      (sampleWrite 5121).resolved (sampleFile 22) = some 0 ∧
      (sampleWrite 5121).payload.length = 5121 ∧ Op.roomFor (sampleFile 22) 0 = 11 ∧
      (sampleWrite 5121).OutOfSpace (sampleFile 22) ∧
      ¬ (sampleWrite 5121).Settled (sampleFile 22) 0 := by
  have howned : MountedOwned (sampleFile 22) :=
    sampleFile_mountedOwned (by decide) (by decide +kernel)
  have hop : (sampleWrite 5121).Stores := trivial
  have hres : (sampleWrite 5121).resolved (sampleFile 22) = some 0 := by decide +kernel
  have hlen : (sampleWrite 5121).payload.length = 5121 := by decide +kernel
  have hroom : Op.roomFor (sampleFile 22) 0 = 11 := by decide +kernel
  have hspace : (sampleWrite 5121).OutOfSpace (sampleFile 22) := by
    rw [Op.outOfSpace_iff howned hop hres rfl (by rw [hlen]; decide), hroom, hlen]
    decide
  refine ⟨howned, hop, hres, hlen, hroom, hspace, ?_⟩
  rcases hspace.settled_or howned hop hres with ⟨_, hne⟩ | ⟨hlost, _⟩
  · exact absurd hroom hne
  · exact hlost

end Newrex
