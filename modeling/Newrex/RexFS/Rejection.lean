import Newrex.RexFS.Ownership

/-!
# RexFS: rejected writes

`rexfs_write` and `rexfs_writehex` free the blocks of the file before they test
whether the payload fits, and `rexfs_writehex` also before it asks for its buffer.
A call that is rejected by these tests returns without storing the inode, whose
pointers then name blocks that the bitmap has as free.

* `rejected_write_clears_bitmap`: a state and a call where this happens.
* `rejected_write_unchanged_iff`: it happens exactly when such a call finds a file
  that owns a block.
-/

namespace Newrex

open RexFS

/-- The branches that reject the call: bad arguments, no such file, no memory for
the hex buffer, or a payload that is too large. -/
def RexFS.WriteExit.rejects : WriteExit → Bool
  | .usage | .noPayload | .notFound | .noMemory | .tooLarge => true
  | .notMounted | .empty | .written => false

/-- How a `write` or `writehex` returns; `none` for the other commands. -/
def Op.exit (st : RexFS) : Op → Option WriteExit
  | .write cmdArgs => some (st.rexfsWrite cmdArgs).2
  | .writehex cmdArgs binBuf => some (st.rexfsWritehex cmdArgs binBuf).2
  | _ => none

/-- The tests that are made after the blocks of the file were freed: no memory for
the hex buffer, or a payload that needs more than 266 blocks. -/
def Op.RejectedLate (op : Op) : Prop :=
  op.outOfMemory = true ∨ 266 < blocksNeeded op.payload.length

theorem storePayload_rejects (tooLarge written : String) (st : RexFS) (s : Slot) (ino : NrInode)
    (data : List UInt8) :
    ((storePayload tooLarge written st s ino data).2.rejects = true ↔
      266 < blocksNeeded data.length) ∧
    (266 < blocksNeeded data.length →
      (storePayload tooLarge written st s ino data).1.disk = st.disk) := by
  simp only [storePayload]
  split
  · next hlen =>
    have hzero : ¬ 266 < blocksNeeded data.length := by
      rw [hlen]
      decide
    exact ⟨⟨fun h => absurd h Bool.false_ne_true, fun h => absurd h hzero⟩, fun h => absurd h hzero⟩
  · split
    · next hlarge => exact ⟨⟨fun _ => hlarge, fun _ => rfl⟩, fun _ => rfl⟩
    · next hfits =>
      exact ⟨⟨fun h => absurd h Bool.false_ne_true, fun h => absurd h hfits⟩,
        fun h => absurd h hfits⟩

/-- A `write` or `writehex` that finds a file is rejected exactly by the late tests,
and then leaves the disk as the freeing loops left it. -/
theorem rejected_resolved {st : RexFS} {op : Op} {s : Slot} {exit : WriteExit}
    (hexit : op.exit st = some exit) (hres : op.resolved st = some s) :
    (exit.rejects = true ↔ op.RejectedLate) ∧
      (op.RejectedLate → (op.step st).disk = (st.freeInodeBlocks (st.disk.inode s)).disk) := by
  cases op with
  | write cmdArgs =>
    have heq := rexfsWrite_resolved hres
    have hstore := storePayload_rejects "Error: Text payload exceeds maximum file size (133 KB).\n"
      "File written successfully.\n" (st.freeInodeBlocks (st.disk.inode s)) s
      (clearPointers (st.disk.inode s)) (Op.payload (.write cmdArgs))
    have hlate : Op.RejectedLate (.write cmdArgs) ↔
        266 < blocksNeeded (Op.payload (.write cmdArgs)).length := by
      simp [Op.RejectedLate, Op.outOfMemory]
    cases hexit
    rw [hlate, Op.step, heq]
    exact hstore
  | writehex cmdArgs binBuf =>
    cases hexit
    rcases rexfsWritehex_resolved hres with ⟨hbuf, heq⟩ | ⟨hbuf, odd, heq⟩
    · have hlate : Op.RejectedLate (.writehex cmdArgs binBuf) :=
        Or.inl (by simp [Op.outOfMemory, hbuf])
      rw [Op.step, heq]
      exact ⟨⟨fun _ => hlate, fun _ => rfl⟩, fun _ => printStringColor_disk _ _ _⟩
    · have hstore := storePayload_rejects "Error: Payload exceeds maximum file size (133 KB).\n"
        "Hex file written successfully.\n" (hexParsed st s odd) s
        (clearPointers (st.disk.inode s)) (Op.payload (.writehex cmdArgs binBuf))
      have hlate : Op.RejectedLate (.writehex cmdArgs binBuf) ↔
          266 < blocksNeeded (Op.payload (.writehex cmdArgs binBuf)).length := by
        simp [Op.RejectedLate, Op.outOfMemory, hbuf]
      rw [hlate, Op.step, heq, ← (hexParsed_facts st s odd).1]
      exact hstore
  | _ => simp [Op.exit] at hexit

/-- A `write` or `writehex` that finds no file leaves the disk alone. -/
theorem step_disk_of_unresolved {st : RexFS} {op : Op} {exit : WriteExit}
    (hexit : op.exit st = some exit) (hres : op.resolved st = none) :
    (op.step st).disk = st.disk := by
  cases op with
  | write cmdArgs =>
    obtain ⟨text, heq⟩ := rexfsWrite_unresolved hres
    rw [Op.step, heq]
    rfl
  | writehex cmdArgs binBuf =>
    obtain ⟨text, heq⟩ := rexfsWritehex_unresolved hres
    rw [Op.step, heq]
    rfl
  | _ => simp [Op.exit] at hexit

/-- The freeing loops change the disk unless the file owns no block. -/
theorem freeInodeBlocks_disk_eq_iff {st : RexFS} {total : Nat} {s : Slot}
    (hown : BlockOwnership total st.disk) (hoff : st.activeSb.dataOffset = 11)
    (hlive : (st.disk.inode s).id ≠ 0) :
    (st.freeInodeBlocks (st.disk.inode s)).disk = st.disk ↔
      st.disk.blocksOf (st.disk.inode s) = [] := by
  constructor
  · intro hsame
    refine List.eq_nil_iff_forall_not_mem.mpr fun b hb => ?_
    rw [← Disk.ownedBlocks_of_live hlive] at hb
    have hm := hown.blocks.marked s b hb
    have hkept := (freeInodeBlocks_marked_iff hown hoff hlive b).mp (by rw [hsame]; exact hm)
    exact hkept.2 hb
  · intro hnone
    rw [freeInodeBlocks_of_none hown hlive hnone]

/-- When a rejected write leaves the disk unchanged. On a file system that satisfies
block ownership this is the case for a `write` or `writehex` if and only if the call
finds no file, or the file owns no block, or the call passes the tests that come after
the freeing loops. -/
theorem rejected_write_unchanged_iff {st : RexFS} {op : Op} {exit : WriteExit}
    (hoff : st.activeSb.dataOffset = 11)
    (hown : BlockOwnership st.activeSb.totalBlocks.toNat st.disk) (hexit : op.exit st = some exit) :
    (exit.rejects = true → (op.step st).disk = st.disk) ↔
      ∀ s, op.resolved st = some s →
        st.disk.blocksOf (st.disk.inode s) = [] ∨ ¬ op.RejectedLate := by
  rcases hres : op.resolved st with _ | s
  · refine ⟨fun _ s hs => absurd hs (by simp), fun _ _ => step_disk_of_unresolved hexit hres⟩
  · obtain ⟨hiff, hdisk⟩ := rejected_resolved hexit hres
    have hlive := Op.resolved_live hres
    rw [hiff]
    constructor
    · intro hsame t ht
      cases ht
      by_cases hlate : op.RejectedLate
      · have := hsame hlate
        rw [hdisk hlate, freeInodeBlocks_disk_eq_iff hown hoff hlive] at this
        exact Or.inl this
      · exact Or.inr hlate
    · intro hcond hlate
      rw [hdisk hlate, freeInodeBlocks_disk_eq_iff hown hoff hlive]
      rcases hcond s rfl with hnone | hnot
      · exact hnone
      · exact absurd hlate hnot

theorem sampleRun_owned :
    BlockOwnership sampleRun.activeSb.totalBlocks.toNat sampleRun.disk := by
  have hsound := reachable_sound (by decide) sampleRun_reachable
  rw [hsound.active]
  exact hsound.owned

/-- A rejected call that does change the disk: `writehex a 00` without memory for the
buffer, on a disk where `a` owns block 11. The bit of block 11 is clear afterwards
and `a` still points to it. -/
theorem rejected_write_clears_bitmap :
    ¬ ∀ (st : RexFS) (op : Op) (exit : WriteExit), st.fsMounted = true →
      st.activeSb.dataOffset = 11 → BlockOwnership st.activeSb.totalBlocks.toNat st.disk →
      op.exit st = some exit → exit.rejects = true → (op.step st).disk = st.disk := by
  intro h
  have hsame := h sampleRun (.writehex (.ofBuffer [97, 32, 48, 48]) 0) .noMemory (by decide +kernel)
    (by decide +kernel) sampleRun_owned (by decide +kernel) rfl
  have hbit : ((Op.writehex (.ofBuffer [97, 32, 48, 48]) 0).step sampleRun).disk.bit 0 = false := by
    decide +kernel
  rw [hsame] at hbit
  exact absurd hbit (by decide +kernel)

/-- The same call on `b`, which owns no block. -/
theorem rejected_write_unchanged_empty :
    ((Op.writehex (.ofBuffer [98, 32, 48, 48]) 0).step sampleRun).disk = sampleRun.disk := by
  have hcond : ∀ s, Op.resolved sampleRun (.writehex (.ofBuffer [98, 32, 48, 48]) 0) = some s →
      sampleRun.disk.blocksOf (sampleRun.disk.inode s) = [] ∨
        ¬ Op.RejectedLate (.writehex (.ofBuffer [98, 32, 48, 48]) 0) := by
    intro s hs
    have h1 : Op.resolved sampleRun (.writehex (.ofBuffer [98, 32, 48, 48]) 0) = some 1 := by
      decide +kernel
    rw [h1] at hs
    cases hs
    exact Or.inl (by decide +kernel)
  have hexit : Op.exit sampleRun (.writehex (.ofBuffer [98, 32, 48, 48]) 0) = some .noMemory := by
    decide +kernel
  exact (rejected_write_unchanged_iff (by decide +kernel) sampleRun_owned hexit).mpr hcond rfl

end Newrex
