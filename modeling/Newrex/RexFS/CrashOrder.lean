import Newrex.RexFS.Crash
import Newrex.RexFS.Ownership

/-!
# RexFS: the order of the writes of a command

A power cut in the middle of a command leaves the disk with a prefix of its writes, and
`mount` repairs nothing. What matters then is that no live inode names a block that the
bitmap calls free (`RefsMarked`), for the next allocation would hand it to another file.

The allocation loop marks a block first and stores the inode last, so that every cut is
harmless (`writeBlocks_keeps`). The loops that free the blocks of a file run while its inode
still names them. `crash_order_iff` is the result: a command keeps to the order exactly when
it has no block to free.
-/

namespace Newrex

open RexFS WriteLog

/-! ## Disks after a cut -/

/-- Every block that a live inode names is marked. -/
def Disk.RefsMarked (d : Disk) : Prop :=
  ∀ s b, b ∈ d.ownedBlocks s → 11 ≤ b ∧ d.bit (b - 11) = true

/-- An allocation on the remounted disk, whose superblock may have changed, hands out no block
that a live inode names. -/
def Disk.NoReuse (d : Disk) : Prop :=
  ∀ st : RexFS, (∀ l, 2 ≤ l → st.disk l = d l) → st.activeSb.dataOffset = 11 →
    ∀ s, st.allocateFreeBlock.2 ∉ d.ownedBlocks s

theorem Disk.RefsMarked.noReuse {d : Disk} (h : d.RefsMarked) : d.NoReuse := by
  intro st hdisk hoff s hmem
  rcases allocateFreeBlock_cases st hoff with ⟨heq, _⟩ | ⟨idx, buf, _, _, hclear, _, _, heq⟩
  · rw [heq] at hmem
    exact absurd (h s 0 hmem).1 (by decide)
  · rw [heq] at hmem
    have hbit := (h s _ hmem).2
    dsimp only at hbit
    rw [Nat.add_sub_cancel_left, Disk.bit, ← hdisk 10 (by decide), ← Disk.bit, hclear] at hbit
    exact absurd hbit Bool.false_ne_true

theorem BlockOwnership.refsMarked {total : Nat} {d : Disk} (h : BlockOwnership total d) :
    d.RefsMarked := fun s b hb => ⟨(h.blocks.marked s b hb).1, (h.blocks.marked s b hb).2.2⟩

/-- A mounted file system in which blocks are owned. -/
structure MountedOwned (st : RexFS) : Prop where
  mounted : st.fsMounted = true
  offset : st.activeSb.dataOffset = 11
  owned : BlockOwnership (11 + blockLimit st.activeSb) st.disk

/-- The disk has the property after each write on the way from `st` to `st'`. -/
structure Keeps (P : Disk → Prop) (st st' : RexFS) : Prop where
  cached : st'.activeSb = st.activeSb
  writes : ∃ ws, Logged ws st st' ∧ AtEveryCut P ws st.disk

namespace Keeps

variable {P Q : Disk → Prop} {st st' st'' : RexFS}

theorem refl (h : P st.disk) : Keeps P st st :=
  ⟨rfl, [], .nil rfl rfl, atEveryCut_nil h⟩

/-- A step that writes nothing. -/
theorem silent (h : Keeps P st st') (hsb : st''.activeSb = st'.activeSb)
    (hw : st''.writes = st'.writes) (hd : st''.disk = st'.disk) : Keeps P st st'' := by
  obtain ⟨ws, hws, hcut⟩ := h.writes
  refine ⟨hsb.trans h.cached, ws, ?_, hcut⟩
  have htrans := hws.trans (Logged.nil hw hd)
  rwa [List.append_nil] at htrans

theorem print (h : Keeps P st st') (text : String) (color : UInt8) :
    Keeps P st (st'.printStringColor text color) := h.silent rfl rfl rfl

/-- A message printed before the first write. -/
theorem of_print {text : String} {color : UInt8}
    (h : Keeps P (st.printStringColor text color) st') : Keeps P st st' := by
  obtain ⟨ws, hws, hcut⟩ := h.writes
  exact ⟨h.cached, ws, ⟨hws.log, hws.disk⟩, hcut⟩

theorem write (h : Keeps P st st') {lba : Nat} (hlba : lba < 2 ^ 28) {buffer : Sector}
    (hP : P (Function.update st'.disk lba buffer)) : Keeps P st (st'.writeSector lba buffer) := by
  obtain ⟨ws, hws, hcut⟩ := h.writes
  refine ⟨h.cached, _, hws.write lba buffer, hcut.snoc ?_⟩
  rw [← hws.disk, Nat.mod_eq_of_lt hlba]
  exact hP

theorem store (h : Keeps P st st') {s : Slot} {ino : NrInode} (hP : P (st'.disk.setInode s ino)) :
    Keeps P st (st'.storeInode s ino) := by
  have hlt := s.sector_lt
  exact h.write (by omega) hP

theorem mono (h : Keeps P st st') (hPQ : ∀ d, P d → Q d) : Keeps Q st st' := by
  obtain ⟨ws, hws, hcut⟩ := h.writes
  exact ⟨h.cached, ws, hws, hcut.mono hPQ⟩

theorem disk (h : Keeps P st st') : P st'.disk := by
  obtain ⟨ws, hws, hcut⟩ := h.writes
  have hall := hcut ws.length
  rwa [List.take_length, ← hws.disk] at hall

end Keeps

/-! ## Allocating -/

/-- `d` has the inode table of `d0` and the blocks that `d0` marks, and marks them too. -/
structure Disk.Extends (d0 d : Disk) : Prop where
  table : ∀ l, 2 ≤ l → l < 10 → d l = d0 l
  bits : ∀ i, d0.bit i = true → d.bit i = true
  blocks : ∀ b, 11 ≤ b → d0.bit (b - 11) = true → d b = d0 b

/-- `b` is a block that `d0` does not mark. -/
def Disk.Fresh (d0 : Disk) (b : Nat) : Prop := 11 ≤ b ∧ b < 65536 ∧ d0.bit (b - 11) = false

namespace Disk.Extends

variable {d0 d : Disk}

theorem refl (d0 : Disk) : d0.Extends d0 := ⟨fun _ _ _ => rfl, fun _ h => h, fun _ _ _ => rfl⟩

/-- The inodes own what they owned. -/
theorem refsMarked (h : d0.Extends d) {total : Nat} (hown : BlockOwnership total d0) :
    d.RefsMarked := by
  have hinode : ∀ s, d.inode s = d0.inode s := Disk.inode_congr h.table
  have howned : ∀ s, d.ownedBlocks s = d0.ownedBlocks s := by
    intro s
    unfold Disk.ownedBlocks
    rw [hinode s]
    split
    · rfl
    · next hlive =>
      refine Disk.blocksOf_congr fun hind => ?_
      have hm := hown.indirect_marked hlive hind
      exact h.blocks _ hm.1 hm.2.2
  intro s b hb
  rw [howned s] at hb
  have hm := hown.refsMarked s b hb
  exact ⟨hm.1, h.bits _ hm.2⟩

/-- Writing a fresh block. -/
theorem write_fresh (h : d0.Extends d) {b : Nat} (hb : d0.Fresh b) (buffer : Sector) :
    d0.Extends (Function.update d b buffer) := by
  obtain ⟨hlow, _, hclear⟩ := hb
  refine ⟨fun l hl2 hl10 => ?_, fun i hi => ?_, fun c hc hbit => ?_⟩
  · rw [Function.update_of_ne (by omega), h.table l hl2 hl10]
  · rw [Disk.bit, Function.update_of_ne (by omega), ← Disk.bit]
    exact h.bits i hi
  · have hne : c ≠ b := by
      rintro rfl
      rw [hclear] at hbit
      exact absurd hbit Bool.false_ne_true
    rw [Function.update_of_ne hne, h.blocks c hc hbit]

end Disk.Extends

section Allocating

variable {d0 : Disk} {st st' : RexFS}

/-- `allocate_free_block` marks one more block, which was not marked at the start. -/
theorem Keeps.allocate (h : Keeps d0.Extends st st') (hoff : st.activeSb.dataOffset = 11) :
    Keeps d0.Extends st st'.allocateFreeBlock.1 ∧
      (st'.allocateFreeBlock.2 = 0 ∨ d0.Fresh st'.allocateFreeBlock.2) := by
  have hoff' : st'.activeSb.dataOffset = 11 := by rw [h.cached, hoff]
  have hext := h.disk
  rcases allocateFreeBlock_cases st' hoff' with
    ⟨heq, _⟩ | ⟨idx, buf, hidx, _, hclear, _, hbits, heq⟩
  · rw [heq]
    exact ⟨h, Or.inl rfl⟩
  · rw [heq]
    refine ⟨h.write (by decide) ⟨fun l _ hl => ?_, fun i hi => ?_, fun b hb hbit => ?_⟩,
      Or.inr ⟨?_, ?_, ?_⟩⟩
    · rw [Function.update_of_ne (by omega), hext.table l (by omega) hl]
    · have hi' := hext.bits i hi
      rw [Disk.bit, Function.update_self, hbits i (Sector.bit_lt hi), hi', Bool.true_or]
    · rw [Function.update_of_ne (by omega), hext.blocks b hb hbit]
    · show 11 ≤ 11 + idx
      omega
    · show 11 + idx < 65536
      omega
    · show d0.bit (11 + idx - 11) = false
      rw [Nat.add_sub_cancel_left]
      by_contra hset
      rw [Bool.not_eq_false] at hset
      rw [hext.bits idx hset] at hclear
      exact absurd hclear (by decide)

theorem Keeps.writeFresh (h : Keeps d0.Extends st st') {b : Nat} (hb : d0.Fresh b)
    (buffer : Sector) : Keeps d0.Extends st (st'.writeSector b buffer) :=
  h.write (Nat.lt_trans hb.2.1 (by decide)) (h.disk.write_fresh hb buffer)

theorem ensureIndirect_keeps (h : Keeps d0.Extends st st') (hoff : st.activeSb.dataOffset = 11)
    {ino : NrInode} (hino : ino.indirectBlock = 0 ∨ d0.Fresh ino.indirectBlock.toNat) :
    Keeps d0.Extends st (st'.ensureIndirect ino).1 ∧
      ∀ ino', (st'.ensureIndirect ino).2 = some ino' → d0.Fresh ino'.indirectBlock.toNat := by
  obtain ⟨halloc, hlba⟩ := h.allocate hoff
  unfold ensureIndirect
  dsimp only
  split
  · split
    · exact ⟨halloc.print _ _, fun ino' h' => by cases h'⟩
    · next hne =>
      have hfresh := hlba.resolve_left hne
      refine ⟨halloc.writeFresh hfresh _, fun ino' h' => ?_⟩
      cases h'
      show d0.Fresh (UInt16.ofNat st'.allocateFreeBlock.2).toNat
      rw [UInt16.toNat_ofNat', Nat.mod_eq_of_lt hfresh.2.1]
      exact hfresh
  · next hne =>
    refine ⟨h, fun ino' h' => ?_⟩
    cases h'
    exact hino.resolve_left hne

/-- The allocation loop, by induction on the number of blocks left. -/
theorem writeBlocks_keeps (hoff : st.activeSb.dataOffset = 11) (data : List UInt8) (n k : Nat)
    (st' : RexFS) (ino : NrInode) (bytesWritten : Nat) (h : Keeps d0.Extends st st')
    (hino : ino.indirectBlock = 0 ∨ d0.Fresh ino.indirectBlock.toNat) :
    Keeps d0.Extends st (writeBlocks data n k st' ino bytesWritten).1 := by
  induction n generalizing k st' ino bytesWritten with
  | zero => exact h
  | succ n ih =>
    obtain ⟨halloc, hlba⟩ := h.allocate hoff
    unfold writeBlocks
    dsimp only
    split
    · exact halloc.print _ _
    · next hne =>
      have hwrite := halloc.writeFresh (hlba.resolve_left hne)
        (chunkSector data bytesWritten (min (data.length - bytesWritten) 512))
      split
      · exact ih _ _ _ _ hwrite hino
      · obtain ⟨hind, hfresh⟩ := ensureIndirect_keeps hwrite hoff hino
        split
        · next st2 heq =>
          rw [heq] at hind
          exact hind
        · next st2 ino2 heq =>
          rw [heq] at hind hfresh
          exact ih _ _ _ _ (hind.writeFresh (hfresh ino2 rfl) _) (Or.inr (hfresh ino2 rfl))

end Allocating

/-! ## Commands that free nothing -/

/-- The commands that the order of writes is about. -/
def Op.Updates : Op → Prop
  | .mkdir _ | .touch _ | .rm _ | .write _ | .writehex _ _ => True
  | _ => False

/-- The disk that a power cut after `k` of the writes of a command leaves behind. -/
def Op.cutAt (op : Op) (st : RexFS) (k : Nat) : Disk :=
  applyWrites (((Call.op op).written st).take k) st.disk

/-- The blocks that a command frees: those of the regular file that it resolves. -/
def Op.released (st : RexFS) (op : Op) : List Nat :=
  match op.resolved st with
  | none => []
  | some s => if (st.disk.inode s).type = 2 then [] else st.disk.blocksOf (st.disk.inode s)

section Harmless

variable {st : RexFS} {s : Slot}

theorem createInode_keeps (h : MountedOwned st) (type : UInt16) (usage created : String)
    (name : CString) : Keeps Disk.RefsMarked st (createInode type usage created st name) := by
  have hrefl : Keeps Disk.RefsMarked st st := .refl h.owned.refsMarked
  unfold createInode
  split
  · exact hrefl.print _ _
  · split
    · exact hrefl.print _ _
    · split
      · exact hrefl.print _ _
      · split
        · next t _ =>
          refine (hrefl.store ?_).print _ _
          exact (h.owned.setInode (fun _ => rfl)
            fun _ => blocksOf_clearPointers _ (newInode t type _ name.chars)).refsMarked
        · exact hrefl.print _ _

theorem rexfsRm_keeps (h : MountedOwned st) (name : CString)
    (hnone : Op.released st (.rm name) = []) : Keeps Disk.RefsMarked st (st.rexfsRm name) := by
  have hrefl : Keeps Disk.RefsMarked st st := .refl h.owned.refsMarked
  rcases hres : Op.resolved st (.rm name) with _ | s
  · obtain ⟨text, heq⟩ := rexfsRm_unresolved hres
    rw [heq]
    exact hrefl.print _ _
  · rcases rexfsRm_resolved hres with ⟨text, heq, _⟩ | ⟨st1, hst1, heq⟩
    · rw [heq]
      exact hrefl.print _ _
    · -- nothing is freed, so the only write is the one of the inode
      have hsame : st1 = st := by
        rw [hst1]
        split
        · rfl
        · next htype =>
          simp only [Op.released, hres, if_neg htype] at hnone
          exact freeInodeBlocks_of_none h.owned (Op.resolved_live hres) hnone
      rw [heq, hsame]
      refine (hrefl.store ?_).print _ _
      exact (h.owned.setInode (fun h => absurd rfl h) fun h => absurd rfl h).refsMarked

/-- Marking, filling and listing the new blocks keeps to the order, and so does the write of
the inode that names them. -/
theorem storePayload_keeps (h : MountedOwned st) (hlive : (st.disk.inode s).id ≠ 0)
    (hnone : st.disk.blocksOf (st.disk.inode s) = []) (tooLarge written : String)
    (data : List UInt8) :
    Keeps Disk.RefsMarked st
      (storePayload tooLarge written st s (clearPointers (st.disk.inode s)) data).1 := by
  have hrefl : Keeps Disk.RefsMarked st st := .refl h.owned.refsMarked
  have hfree := freeInodeBlocks_of_none h.owned hlive hnone
  by_cases hfits : blocksNeeded data.length ≤ 266
  · have hend : (storePayload tooLarge written st s
        (clearPointers (st.disk.inode s)) data).1.disk.RefsMarked := by
      obtain ⟨r, bs, ind, leak, hW, st', heq, hd, _⟩ := storePayload_wrote (s := s) tooLarge written
        h.offset hfits (by rw [hfree]) rfl (by rw [hfree])
      rw [heq, hd]
      exact (h.owned.rewrite h.offset rfl hlive hW).refsMarked
    unfold storePayload at hend ⊢
    rw [if_neg (Nat.not_lt.mpr hfits)] at hend ⊢
    split
    · next hempty =>
      rw [if_pos hempty, printStringColor_disk, storeInode_disk] at hend
      exact (hrefl.store hend).print _ _
    · next hfull =>
      rw [if_neg hfull, printStringColor_disk, storeInode_disk] at hend
      have hblocks := writeBlocks_keeps h.offset data (blocksNeeded data.length) 0 st
        (clearPointers (st.disk.inode s)) 0 (.refl (Disk.Extends.refl st.disk)) (Or.inl rfl)
      exact ((hblocks.mono fun d hd => hd.refsMarked h.owned).store hend).print _ _
  · have hlarge : blocksNeeded data.length > 266 := Nat.lt_of_not_le hfits
    unfold storePayload
    rw [if_pos hlarge]
    split
    · next hempty =>
      rw [hempty] at hlarge
      exact absurd hlarge (by decide)
    · exact hrefl.print _ _

theorem rexfsWrite_keeps (h : MountedOwned st) (cmdArgs : CString)
    (hnone : ∀ s, Op.resolved st (.write cmdArgs) = some s →
      st.disk.blocksOf (st.disk.inode s) = []) :
    Keeps Disk.RefsMarked st (st.rexfsWrite cmdArgs).1 := by
  rcases hres : Op.resolved st (.write cmdArgs) with _ | s
  · obtain ⟨text, heq⟩ := rexfsWrite_unresolved hres
    rw [heq]
    exact (Keeps.refl h.owned.refsMarked).print _ _
  · have hlive := Op.resolved_live hres
    rw [rexfsWrite_resolved hres, freeInodeBlocks_of_none h.owned hlive (hnone s hres)]
    exact storePayload_keeps h hlive (hnone s hres) _ _ _

theorem rexfsWritehex_keeps (h : MountedOwned st) (cmdArgs : CString) (binBuf : UInt32)
    (hnone : ∀ s, Op.resolved st (.writehex cmdArgs binBuf) = some s →
      st.disk.blocksOf (st.disk.inode s) = []) :
    Keeps Disk.RefsMarked st (st.rexfsWritehex cmdArgs binBuf).1 := by
  have hrefl : Keeps Disk.RefsMarked st st := .refl h.owned.refsMarked
  rcases hres : Op.resolved st (.writehex cmdArgs binBuf) with _ | s
  · obtain ⟨text, heq⟩ := rexfsWritehex_unresolved hres
    rw [heq]
    exact hrefl.print _ _
  · have hlive := Op.resolved_live hres
    have hfree := freeInodeBlocks_of_none h.owned hlive (hnone s hres)
    rcases rexfsWritehex_resolved hres with ⟨_, heq⟩ | ⟨_, odd, heq⟩
    · rw [heq, hfree]
      exact hrefl.print _ _
    · rw [heq, hexParsed, hfree]
      split
      · -- the warning about a trailing digit changes the console only
        have hprinted : MountedOwned (st.printStringColor
            "Warning: Odd number of hex characters. Ignoring trailing digit.\n" colorYellow) :=
          ⟨h.mounted, h.offset, h.owned⟩
        exact (storePayload_keeps hprinted hlive (hnone s hres) _ _ _).of_print
      · exact storePayload_keeps h hlive (hnone s hres) _ _ _

end Harmless

/-! ## Commands that free blocks -/

section Releasing

variable {st : RexFS} {op : Op}

/-- A resolved regular file: its blocks are freed before anything else is written. -/
theorem confined_of_released (h : MountedOwned st) {s : Slot} (hres : op.resolved st = some s)
    (htype : (st.disk.inode s).type ≠ 2) :
    Confined 4096 (st.freeInodeBlocks (st.disk.inode s)) (op.step st) := by
  have hoff : (st.freeInodeBlocks (st.disk.inode s)).activeSb.dataOffset = 11 := by
    rw [freeInodeBlocks_toMountState]
    exact h.offset
  have hn := Nat.min_le_right (blockLimit (st.freeInodeBlocks (st.disk.inode s)).activeSb) 4096
  have hrefl := Confined.refl ((st.freeInodeBlocks (st.disk.inode s)).disk 10).marksBelow_bits
  cases op with
  | rm name =>
    show Confined 4096 _ (st.rexfsRm name)
    rcases rexfsRm_resolved hres with ⟨_, _, hdir⟩ | ⟨st1, hst1, heq⟩
    · exact absurd hdir htype
    · rw [if_neg htype] at hst1
      rw [heq, hst1]
      exact (hrefl.store s _).print _ _
  | write cmdArgs =>
    show Confined 4096 _ (st.rexfsWrite cmdArgs).1
    rw [rexfsWrite_resolved hres]
    exact storePayload_confined hrefl hoff hn _ _ _ _ _
  | writehex cmdArgs binBuf =>
    show Confined 4096 _ (st.rexfsWritehex cmdArgs binBuf).1
    rcases rexfsWritehex_resolved hres with ⟨_, heq⟩ | ⟨_, odd, heq⟩
    · rw [heq]
      exact hrefl.print _ _
    · rw [heq]
      refine storePayload_confined ?_ hoff hn _ _ _ _ _
      unfold hexParsed
      split
      · exact hrefl.print _ _
      · exact hrefl
  | _ => cases hres

theorem Op.released_cons {b : Nat} {bs : List Nat} (hrel : op.released st = b :: bs) :
    ∃ s, op.resolved st = some s ∧ (st.disk.inode s).type ≠ 2 ∧
      st.disk.blocksOf (st.disk.inode s) = b :: bs := by
  unfold Op.released at hrel
  split at hrel
  · cases hrel
  · next s hres =>
    split at hrel
    · cases hrel
    · next htype => exact ⟨s, hres, htype, hrel⟩

/-- After its first write the command has freed a block that the inode still names. -/
theorem first_write_unmarks (h : MountedOwned st) {b : Nat} {bs : List Nat}
    (hrel : op.released st = b :: bs) :
    ¬ (op.cutAt st 1).RefsMarked := by
  obtain ⟨s, hres, htype, hblocks⟩ := Op.released_cons hrel
  have hlive := Op.resolved_live hres
  have hmem : b ∈ st.disk.ownedBlocks s := by
    rw [Disk.ownedBlocks_of_live hlive, hblocks]
    exact List.mem_cons_self
  have hmark := h.owned.blocks.marked s b hmem
  have hindex := hmark.lt
  -- the log starts with the write of `free_block(b)`
  have hfirst : ∃ w, Logged [w] st (st.freeBlock b) := by
    rcases freeBlock_cases st b h.offset with ⟨hlow, _⟩ | ⟨_, _, heq⟩ | ⟨hhigh, _⟩
    · exact absurd hmark.1 (by omega)
    · rw [heq]
      exact ⟨_, .writeSector _ _ _⟩
    · omega
  have hrest : Confined 4096 (st.freeBlock b) (op.step st) := by
    have hstep := confined_of_released h hres htype
    rw [freeInodeBlocks_eq_freeAll st (h.owned.indirect_ne hlive), hblocks] at hstep
    exact ((Confined.refl (Sector.marksBelow_bits _)).freeAll bs).trans hstep
  obtain ⟨w, hw⟩ := hfirst
  obtain ⟨ws, hws, _⟩ := hrest.writes
  have hlog : Logged ([w] ++ ws) st ((Call.op op).run st) := hw.trans hws
  have hdisk : op.cutAt st 1 = (st.freeBlock b).disk := by
    rw [Op.cutAt, hlog.written, hw.disk]
    rfl
  intro hall
  rw [hdisk] at hall
  have hinode : (st.freeBlock b).disk.inode s = st.disk.inode s :=
    Disk.inode_congr (fun l _ hl => freeBlock_disk_of_ne st b (by omega)) s
  have hstill : b ∈ (st.freeBlock b).disk.ownedBlocks s := by
    rw [Disk.ownedBlocks_of_live (by rw [hinode]; exact hlive), hinode,
      Disk.blocksOf_congr fun _ => freeBlock_disk_of_ne st b (h.owned.indirect_ne hlive), hblocks]
    exact List.mem_cons_self
  have hbit := (hall s b hstill).2
  have hsame : 11 + (b - 11) = b := Nat.add_sub_cancel' hmark.1
  rw [freeBlock_bit st b h.offset hindex, hsame] at hbit
  simp at hbit

end Releasing

/-! ## The order of the writes -/

/-- When a command keeps to the order. In a mounted file system in which blocks are owned, for
`mkdir`, `touch`, `rm`, `write` and `writehex` with any argument: on the disks that a power cut
after any of its writes leaves behind, every block that a live inode names is marked, and no
allocation after the next mount hands such a block out, if and only if the command has no block
to free. -/
theorem crash_order_iff {st : RexFS} (h : MountedOwned st) {op : Op} (hop : op.Updates) :
    (∀ k, (op.cutAt st k).RefsMarked ∧ (op.cutAt st k).NoReuse) ↔ op.released st = [] := by
  constructor
  · intro hall
    rcases hrel : op.released st with _ | ⟨b, bs⟩
    · rfl
    · exact absurd (hall 1).1 (first_write_unmarks h hrel)
  · intro hnone
    have hkeeps : Keeps Disk.RefsMarked st (op.step st) := by
      have hblocks : ∀ s, op.resolved st = some s → (st.disk.inode s).type ≠ 2 →
          st.disk.blocksOf (st.disk.inode s) = [] := by
        intro s hres htype
        simpa only [Op.released, hres, if_neg htype] using hnone
      have hregular : ∀ {name : List UInt8} {s : Slot},
          st.disk.findInode (·.isEntryOf 1 st.currentDirId name) = some s →
          (st.disk.inode s).type ≠ 2 := by
        intro name s hfind
        rw [(isEntryOf_iff.mp (Disk.findInode_some hfind).1).2.2.1]
        decide
      cases op with
      | mkdir name | touch name => exact createInode_keeps h _ _ _ name
      | rm name => exact rexfsRm_keeps h name hnone
      | write cmdArgs =>
        exact rexfsWrite_keeps h cmdArgs fun s hres =>
          hblocks s hres (hregular (Op.resolved_write cmdArgs hres).2.2.2)
      | writehex cmdArgs binBuf =>
        exact rexfsWritehex_keeps h cmdArgs binBuf fun s hres =>
          hblocks s hres (hregular (Op.resolved_write cmdArgs hres).2.2.2)
      | mkfs _ | mount | unmount | cd _ => exact absurd hop id
    obtain ⟨ws, hws, hcut⟩ := hkeeps.writes
    have hlog : Logged ws st ((Call.op op).run st) := hws
    intro k
    rw [Op.cutAt, hlog.written]
    exact ⟨hcut k, (hcut k).noReuse⟩

theorem sampleRun_mountedOwned : MountedOwned sampleRun := by
  have hsound := reachable_sound (by decide) sampleRun_reachable
  refine ⟨by decide +kernel, by rw [hsound.active]; rfl, ?_⟩
  rw [hsound.active, blockLimit_mounted (by decide)]
  exact hsound.owned

/-- `write b x` fills a file that owns no block. -/
theorem crash_order_sample :
    ((Call.op (.write (.ofBuffer [98, 32, 120]))).written sampleRun).length = 3 ∧
      ∀ k, (Op.cutAt (.write (.ofBuffer [98, 32, 120])) sampleRun k).RefsMarked := by
  have hop : (Op.write (.ofBuffer [98, 32, 120])).Updates := trivial
  have hiff := crash_order_iff sampleRun_mountedOwned hop
  exact ⟨by decide +kernel, fun k => (hiff.mpr (by decide +kernel) k).1⟩

/-- `rm a` on a disk where `a` owns block 11. With the power cut after the first of its two
writes, inode 0 is live and names block 11, and the bit of block 11 is clear. -/
theorem crash_unmarks_live_block :
    ¬ ∀ (st : RexFS) (op : Op), MountedOwned st → op.Updates →
      ∀ k, (op.cutAt st k).RefsMarked := by
  intro h
  have hcut := h sampleRun (.rm (.ofBuffer [97])) sampleRun_mountedOwned trivial 1
  have hbit := (hcut 0 11 (by decide +kernel)).2
  revert hbit
  decide +kernel

end Newrex
