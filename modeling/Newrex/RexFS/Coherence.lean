import Newrex.RexFS.Tree

/-!
# RexFS: mount state and disk agree

`rexfs_mount` caches the superblock, resets the current directory and marks the disk as
active; `rexfs_mkfs` rewrites the disk and leaves all of that alone. `Coherent` says that
the two sides fit together.

* `run_coherent_iff`: all states of a run that stays inside the bitmap are coherent exactly when
  no `mkfs` of the run formats a mounted disk.
* `mkfs_mounted_incoherent`: a run in which one does. The file created next is its own
  parent.
-/

namespace Newrex

open RexFS TransitionSystem

/-- What a mounted state promises: the current directory is live, a crash now is detected
by the next mount, and every live inode is below the root. -/
def Coherent (st : RexFS) : Prop :=
  st.fsMounted = true →
    (st.currentDirId = 0 ∨ st.disk.IsDir st.currentDirId) ∧
    (NrSuperblock.ofSector (st.disk 1)).cleanShutdown = 0 ∧
    ∀ s, (st.disk.inode s).id ≠ 0 → ∃ path, Ascent st.disk.up 0 (st.disk.idOf s) path

/-- Unmounted, with a disk that has no file system or was just formatted. -/
def Unmounted (st : RexFS) : Prop :=
  st.fsMounted = false ∧
    (st.disk.Unsigned ∨ ∃ st0 capacity, capacity ≠ 0 ∧ st = rexfsMkfs st0 capacity)

/-- The command formats a disk that is mounted. -/
def Op.FormatsMounted (st : RexFS) (op : Op) : Prop :=
  ∃ capacity, op = .mkfs capacity ∧ capacity ≠ 0 ∧ st.fsMounted = true

/-- The runs of all commands, with `mkfs` at any time. -/
def commandRuns : TransitionSystem RexFS Op where
  init := Unmounted
  allowed := fun _ _ => True
  step := fun st op => op.step st

/-! ## The clean-shutdown flag -/

/-- The superblock of a mounted file system says that it was not cleanly unmounted. -/
def Flagged (st : RexFS) : Prop :=
  st.fsMounted = true → (NrSuperblock.ofSector (st.disk 1)).cleanShutdown = 0

/-- What a command can do to the superblock and to the mount flag. -/
inductive SuperblockChange (st : RexFS) (op : Op) (st' : RexFS) : Prop
  | formatted (capacity : UInt32) : op = .mkfs capacity → capacity ≠ 0 →
      st'.fsMounted = st.fsMounted → SuperblockChange st op st'
  | mounted : (NrSuperblock.ofSector (st'.disk 1)).cleanShutdown = 0 → SuperblockChange st op st'
  | unmounted : st'.fsMounted = false → SuperblockChange st op st'
  | kept : st'.disk 1 = st.disk 1 → st'.fsMounted = st.fsMounted → SuperblockChange st op st'

/-- The block and inode writes of a command are all above sector 1. -/
theorem Effect.superblock {st st' : RexFS} {op : Op} (he : Effect st op st') :
    SuperblockChange st op st' := by
  cases he with
  | same hd hm _ => exact .kept (by rw [hd]) (by rw [hm])
  | format capacity hop h0 _ hm _ => exact .formatted capacity hop h0 (by rw [hm])
  | mounted _ _ _ _ _ hd _ _ =>
    refine .mounted ?_
    rw [hd, Function.update_self, NrSuperblock.ofSector_toSector]
  | unmounted _ _ _ _ _ hm _ => exact .unmounted (by rw [hm])
  | chdir _ _ _ hd hm _ => exact .kept (by rw [hd]) (by rw [hm])
  | create s _ _ _ _ _ _ _ _ _ hd hm _ =>
    exact .kept (by rw [hd, Disk.setInode_one]) (by rw [hm])
  | rmdir s _ _ _ _ _ _ hd hm _ => exact .kept (by rw [hd, Disk.setInode_one]) (by rw [hm])
  | remove s _ _ _ _ _ hd hm _ =>
    refine .kept ?_ (by rw [hm])
    rw [hd, Disk.setInode_one, freeInodeBlocks_disk_of_ne _ _ (by decide)]
  | freed s _ _ _ _ _ hd hm _ =>
    refine .kept ?_ (by rw [hm])
    rw [hd, freeInodeBlocks_disk_of_ne _ _ (by decide)]
  | rewrite s _ r bs ind leak _ _ _ _ hW hd hm _ =>
    refine .kept ?_ (by rw [hm])
    rw [hd, Disk.setInode_one, hW.filled.alloc.low (by decide),
      freeInodeBlocks_disk_of_ne _ _ (by decide)]

theorem SuperblockChange.flagged {st st' : RexFS} {op : Op} (hc : SuperblockChange st op st')
    (hop : ¬ op.FormatsMounted st) (h : Flagged st) : Flagged st' := by
  intro hmount
  cases hc with
  | formatted capacity heq h0 hm =>
    rw [hm] at hmount
    exact absurd ⟨capacity, heq, h0, hmount⟩ hop
  | mounted hflag => exact hflag
  | unmounted hm =>
    rw [hm] at hmount
    exact absurd hmount Bool.false_ne_true
  | kept hd hm =>
    rw [hm] at hmount
    rw [hd]
    exact h hmount

/-! ## Runs -/

/-- The invariant of the runs that format only unmounted disks. -/
theorem coherent_of_navigable {st : RexFS} (hnav : Navigable st) (hflag : Flagged st) :
    Coherent st := by
  intro hmount
  obtain ⟨_, hwf, names, hwalk⟩ := hnav.mounted hmount
  exact ⟨hwalk.isDir hwf.tree, hflag hmount, hwf.tree.ascents⟩

theorem Unmounted.navigable {st : RexFS} (h : Unmounted st) : Navigable st := by
  obtain ⟨hm, hdisk⟩ := h
  refine ⟨?_, fun hmount => by rw [hm] at hmount; exact absurd hmount (by decide)⟩
  rcases hdisk with hun | ⟨st0, capacity, h0, rfl⟩
  · exact Or.inl hun
  · exact Or.inr (mkfs_formatted st0 h0).1.wellFormed

/-- One command that does not format a mounted disk. -/
theorem step_navigable_flagged {st : RexFS} {op : Op} (hop : ¬ op.FormatsMounted st)
    (h : Navigable st ∧ Flagged st) : Navigable (op.step st) ∧ Flagged (op.step st) := by
  obtain ⟨hnav, hflag⟩ := h
  have he := step_effect st (fun hm => (hnav.mounted hm).1) op
  refine ⟨effect_navigable ?_ hnav he, he.superblock.flagged hop hflag⟩
  intro capacity heq h0
  cases hm : st.fsMounted with
  | false => rfl
  | true => exact absurd ⟨capacity, heq, h0, hm⟩ hop

/-- All commands of a run that do not format a mounted disk. -/
theorem run_navigable_flagged {st : RexFS} (h : Navigable st ∧ Flagged st) {es : List (Op × RexFS)}
    (hrun : (insideRuns commandRuns).IsRun st es)
    (hes : ∀ pre e, pre ++ [e] <+: es →
      ¬ e.1.FormatsMounted (pre.foldl (insideRuns commandRuns).step st)) :
    Navigable (es.foldl (insideRuns commandRuns).step st) ∧
      Flagged (es.foldl (insideRuns commandRuns).step st) := by
  induction es using List.reverseRecOn with
  | nil => exact h
  | append_singleton es e ih =>
    have hfront : es <+: es ++ [e] := List.prefix_append _ _
    rw [insideRuns_step hrun (List.prefix_refl _)]
    refine step_navigable_flagged (hes es e (List.prefix_refl _)) (ih ?_ ?_)
    · exact fun pre e' hpre => hrun pre e' (hpre.trans hfront)
    · exact fun pre e' hpre => hes pre e' (hpre.trans hfront)

/-- Formatting a mounted disk leaves a superblock that says it was cleanly unmounted. -/
theorem Op.FormatsMounted.incoherent {st : RexFS} {op : Op} (h : op.FormatsMounted st) :
    ¬ Coherent (op.step st) := by
  obtain ⟨capacity, rfl, h0, hm⟩ := h
  obtain ⟨hformat, hmount, _⟩ := mkfs_formatted st h0
  intro hco
  have hm' : (st.rexfsMkfs capacity).fsMounted = true := by rw [hmount]; exact hm
  obtain ⟨_, hflag, _⟩ := hco hm'
  have hsb : ((st.rexfsMkfs capacity).disk 1) = (freshSuperblock capacity).toSector :=
    hformat.superblock
  change (NrSuperblock.ofSector ((st.rexfsMkfs capacity).disk 1)).cleanShutdown = 0 at hflag
  rw [hsb, NrSuperblock.ofSector_toSector] at hflag
  exact absurd (show (1 : UInt32) = 0 from hflag) (by decide)

/-- Mount state and disk agree in all states of a run that stays inside the bitmap exactly when the
run never formats a mounted disk. -/
theorem run_coherent_iff {st : RexFS} (h : Unmounted st) {es : List (Op × RexFS)}
    (hrun : (insideRuns commandRuns).IsRun st es) :
    (∀ pre, pre <+: es → Coherent (pre.foldl (insideRuns commandRuns).step st)) ↔
      ∀ pre e, pre ++ [e] <+: es →
        ¬ e.1.FormatsMounted (pre.foldl (insideRuns commandRuns).step st) := by
  constructor
  · intro hco pre e hpre hformat
    have hnext := hco (pre ++ [e]) hpre
    rw [insideRuns_step hrun hpre] at hnext
    exact hformat.incoherent hnext
  · intro hes pre hpre
    have hflag : Flagged st := by
      intro hmount
      rw [h.1] at hmount
      exact absurd hmount Bool.false_ne_true
    obtain ⟨hnav, hflag⟩ := run_navigable_flagged ⟨h.navigable, hflag⟩
      (fun pre' e hpre' => hrun pre' e (hpre'.trans hpre))
      (fun pre' e hpre' => hes pre' e (hpre'.trans hpre))
    exact coherent_of_navigable hnav hflag

/-- A blank disk of 16 sectors, formatted. -/
def sampleFormatted : RexFS := (boot fun _ => Sector.zero).rexfsMkfs 16

theorem run_coherent_iff_sample : Coherent sampleFormatted.rexfsMount := by
  have hinit : Unmounted sampleFormatted := ⟨rfl, Or.inr ⟨_, 16, by decide, rfl⟩⟩
  have hinside : Op.mount.StaysInside sampleFormatted := Op.staysInside_of_unresolved rfl
  have hrun : (insideRuns commandRuns).IsRun sampleFormatted
      [(.mount, sampleFormatted.rexfsMount)] :=
    isRun_cons.mpr ⟨⟨⟨trivial, fun _ => rfl, fun hn => absurd hinside hn⟩, hinside⟩, isRun_nil⟩
  refine (run_coherent_iff hinit hrun).mpr ?_ _ (List.prefix_refl _)
  rintro pre e hpre ⟨capacity, hop, _⟩
  have hmem := hpre.subset (List.mem_append_right pre List.mem_cons_self)
  rw [List.mem_singleton.mp hmem] at hop
  cases hop

/-- Formatting from inside a directory, then creating a file. -/
def formatInside : RexFS :=
  [Op.mount, .mkdir (.ofBuffer [100]), .cd (.ofBuffer [100]), .mkfs 16,
    .touch (.ofBuffer [102])].foldl Op.step sampleFormatted

/-- The disk is mounted and marked as cleanly unmounted, the current directory is gone, and
the new file, which takes the slot of that directory, is its own parent. -/
theorem mkfs_mounted_incoherent :
    Unmounted sampleFormatted ∧ formatInside.fsMounted = true ∧
      ¬ (formatInside.currentDirId = 0 ∨ formatInside.disk.IsDir formatInside.currentDirId) ∧
      (NrSuperblock.ofSector (formatInside.disk 1)).cleanShutdown = 1 ∧
      (formatInside.disk.inode 0).id ≠ 0 ∧
      ¬ ∃ path, Ascent formatInside.disk.up 0 (formatInside.disk.idOf 0) path := by
  refine ⟨⟨rfl, Or.inr ⟨_, 16, by decide, rfl⟩⟩, by decide +kernel, ?_, by decide +kernel,
    by decide +kernel, ?_⟩
  · unfold Disk.IsDir
    decide +kernel
  · rintro ⟨path, hpath⟩
    have hup : formatInside.disk.up (formatInside.disk.idOf 0) =
        some (formatInside.disk.idOf 0) := by decide +kernel
    exact Ascent.not_self (by decide +kernel) hup hpath

end Newrex
