import Newrex.RexFS.Frees

/-!
# RexFS: power cuts and the clean-shutdown flag

A call of RexFS is a sequence of `write_sector` calls; a power cut keeps a prefix of them
and loses the static variables. The disk after a cut is the replay of a prefix of the log.

* `Op.blockWrites`: commands other than `mkfs`, `mount` and `unmount` write only sectors
  above the superblock, in every state with `data_offset` 11.
* `run_unclean_detection`: in all runs with power cuts that stay inside the bitmap, `mount` warns
  exactly when the last call that wrote the superblock was a mount.
* `stray_free_hits_superblock`: a run that does not, in which a `writehex` stores its inode over the
  superblock.
-/

namespace Newrex

open RexFS WriteLog TransitionSystem

/-! ## Writes of the commands -/

/-- From `st` to `st'` only sectors above the superblock are written, and the mount flag
and the cached superblock stay. -/
structure BlockWrites (st st' : RexFS) : Prop where
  mounted : st'.fsMounted = st.fsMounted
  cached : st'.activeSb = st.activeSb
  writes : ∃ ws, Logged ws st st' ∧ ∀ w, w ∈ ws → 2 ≤ w.1

theorem Confined.blockWrites {n : Nat} {st st' : RexFS} (h : Confined n st st') :
    BlockWrites st st' := by
  obtain ⟨ws, hws, harea⟩ := h.writes
  exact ⟨h.mounted, h.cached, ws, hws, fun w hw => (harea w hw).low⟩

/-- All commands but `mkfs`, `mount` and `unmount` write inodes, bitmap, data and indirect blocks
only. -/
theorem Op.blockWrites {st : RexFS} (hoff : st.fsMounted = true → st.activeSb.dataOffset = 11)
    {op : Op} (hop : op.isSuper = false) : BlockWrites st (op.step st) :=
  (Op.confined hoff (Nat.min_le_right _ _) (Sector.marksBelow_bits _) hop).blockWrites

/-! ## The superblock -/

/-- The three operations that write the superblock; `rexfs_init` writes it as a mount. -/
inductive SuperStep
  | mkfs
  | mount
  | unmount
deriving DecidableEq, Repr

/-- A superblock that RexFS wrote, in the operation `last`: what `rexfs_mount` checks, the
data offset, and the flag. -/
structure Stamped (last : SuperStep) (b : Sector) : Prop where
  magic : (NrSuperblock.ofSector b).magic = rexfsMagic
  version : (NrSuperblock.ofSector b).version = rexfsVersion
  offset : (NrSuperblock.ofSector b).dataOffset = 11
  flag : (NrSuperblock.ofSector b).cleanShutdown = 0 ↔ last = .mount

theorem stamped_mkfs (capacity : UInt32) : Stamped .mkfs (freshSuperblock capacity).toSector := by
  refine ⟨?_, ?_, ?_, ?_⟩ <;> rw [NrSuperblock.ofSector_toSector]
  · rfl
  · rfl
  · rfl
  · exact ⟨fun h => absurd (show (1 : UInt32) = 0 from h) (by decide), fun h => by cases h⟩

/-- Only the flag changes. -/
theorem Stamped.withFlag {last last' : SuperStep} {b : Sector} (h : Stamped last b)
    {flag : UInt32} (hflag : flag = 0 ↔ last' = .mount) :
    Stamped last' { NrSuperblock.ofSector b with cleanShutdown := flag }.toSector := by
  refine ⟨?_, ?_, ?_, ?_⟩ <;> rw [NrSuperblock.ofSector_toSector]
  · exact h.magic
  · exact h.version
  · exact h.offset
  · exact hflag

theorem Stamped.mount {last : SuperStep} {b : Sector} (h : Stamped last b) :
    Stamped .mount { NrSuperblock.ofSector b with cleanShutdown := 0 }.toSector :=
  h.withFlag ⟨fun _ => rfl, fun _ => rfl⟩

theorem Stamped.unmount {last : SuperStep} {b : Sector} (h : Stamped last b) :
    Stamped .unmount { NrSuperblock.ofSector b with cleanShutdown := 1 }.toSector :=
  h.withFlag ⟨fun h => absurd h (by decide), fun h => by cases h⟩

/-- `mkfs` writes the superblock first, then sectors 2 to 10. -/
theorem mkfs_logged (st : RexFS) {capacity : UInt32} (h0 : capacity ≠ 0) :
    (st.rexfsMkfs capacity).toMountState = st.toMountState ∧
      ∃ ws, Logged ((1, (freshSuperblock capacity).toSector) :: ws) st (st.rexfsMkfs capacity) ∧
        ∀ w, w ∈ ws → 2 ≤ w.1 := by
  refine ⟨(mkfs_formatted st h0).2.1, ?_⟩
  simp only [rexfsMkfs, h0, if_false, List.foldl_cons, List.foldl_nil]
  have hfirst : Logged [(1, (freshSuperblock capacity).toSector)] st
      ((st.printStringColor "[RexFS] Formatting partition...\n" colorLightCyan).writeSector 1
        (freshSuperblock capacity).toSector) := ⟨rfl, rfl⟩
  generalize (st.printStringColor "[RexFS] Formatting partition...\n" colorLightCyan).writeSector 1
    (freshSuperblock capacity).toSector = st1 at hfirst ⊢
  have hzero (lba : Nat) (hlow : 2 ≤ lba) (hhigh : lba < 11) : Area 4096 (lba, Sector.zero) :=
    ⟨hlow, Nat.lt_add_right 4096 hhigh, by omega, fun _ => Sector.marksBelow_bits _⟩
  have htable := (Confined.refl (Sector.marksBelow_bits (st1.disk 10)))
    |>.print "[RexFS] Superblock written.\n" colorLightGreen
    |>.write (hzero 2 (by decide) (by decide)) |>.write (hzero 3 (by decide) (by decide))
    |>.write (hzero 4 (by decide) (by decide)) |>.write (hzero 5 (by decide) (by decide))
    |>.write (hzero 6 (by decide) (by decide)) |>.write (hzero 7 (by decide) (by decide))
    |>.write (hzero 8 (by decide) (by decide)) |>.write (hzero 9 (by decide) (by decide))
    |>.print "[RexFS] Inode table initialized.\n" colorLightGreen
    |>.write (hzero 10 (by decide) (by decide))
    |>.print "[RexFS] Bitmap initialized.\n" colorLightGreen
    |>.print "[RexFS] Done. Run: mount\n" colorLightGreen
  obtain ⟨ws, hws, hge⟩ := htable.blockWrites.writes
  exact ⟨ws, hfirst.trans hws, hge⟩

theorem mount_logged (st : RexFS) {last : SuperStep} (h : Stamped last (st.disk 1)) :
    st.rexfsMount.activeSb.dataOffset = 11 ∧
      Logged [(1, { NrSuperblock.ofSector (st.disk 1) with cleanShutdown := 0 }.toSector)] st
        st.rexfsMount := by
  obtain ⟨hd, hm, _⟩ := mount_valid st rfl h.magic h.version
  refine ⟨?_, ?_, hd⟩
  · rw [hm]
    exact h.offset
  · simp only [rexfsMount, h.magic, h.version, ne_eq, not_true_eq_false, if_false]
    split <;> rfl

/-! ## Calls, power cuts and runs -/

/-- A call of RexFS: a command, or `rexfs_init` at boot. -/
inductive Call
  | op (op : Op)
  | init

namespace Call

/-- Runs a call to its end. -/
def run (st : RexFS) : Call → RexFS
  | op o => o.step st
  | init => st.rexfsInit

/-- The superblock operation that the call performs, if it writes the superblock. -/
def superStep : Call → Option SuperStep
  | op (.mkfs _) => some .mkfs
  | op .mount => some .mount
  | op .unmount => some .unmount
  | init => some .mount
  | _ => none

/-- The `write_sector` calls that it makes. -/
def written (st : RexFS) (call : Call) : List (Nat × Sector) :=
  (call.run st).writes.drop st.writes.length

end Call

/-- The file system, and the last operation that wrote the superblock. -/
structure CrashState where
  fs : RexFS
  last : SuperStep

/-- A call that completes, or one that is cut after `k` of its writes. -/
inductive Action
  | complete (call : Call)
  | cut (call : Call) (k : Nat)

/-- The last superblock operation after the writes `ws` of a call. -/
def lastAfter (last : SuperStep) (call : Call) (ws : List (Nat × Sector)) : SuperStep :=
  if ws.any (·.1 = 1) then call.superStep.getD last else last

/-- A power cut keeps the disk with the writes made so far and nothing else. -/
def CrashState.step (c : CrashState) : Action → CrashState
  | .complete call => ⟨call.run c.fs, lastAfter c.last call (call.written c.fs)⟩
  | .cut call k =>
    let ws := (call.written c.fs).take k
    ⟨boot (applyWrites ws c.fs.disk), lastAfter c.last call ws⟩

/-- Runs with power cuts. They start with a successful `mkfs`, at boot or on a file system
that has RexFS's data offset. -/
def crashRuns : TransitionSystem CrashState Action where
  init := fun c => ∃ st capacity, (st.fsMounted = true → st.activeSb.dataOffset = 11) ∧
    capacity ≠ 0 ∧ c = ⟨rexfsMkfs st capacity, .mkfs⟩
  allowed := fun _ _ => True
  step := CrashState.step

/-- The action frees no block behind the bitmap. `free_block` writes the bitmap once for every block
of the data area, so that a command that is cut after `k` writes has freed at most the first `k` of
them. -/
def Action.StaysInside (c : CrashState) : Action → Prop
  | .complete (.op op) => op.StaysInside c.fs
  | .cut (.op op) k =>
    ∀ b, b ∈ ((op.freedBlocks c.fs).filter (c.fs.activeSb.dataOffset.toNat ≤ ·)).take k →
      b < c.fs.activeSb.dataOffset.toNat + 4096
  | _ => True

/-- What an action can leave once a store has missed the bitmap. -/
def CrashState.Strayed (c : CrashState) (a : Action) (c' : CrashState) : Prop :=
  match a with
  | .complete call => c'.fs.toMountState = c.fs.toMountState ∧
      ∃ ws, Logged ws c.fs c'.fs ∧ c'.last = lastAfter c.last call ws
  | .cut call _ => ∃ ws, c' = ⟨boot (applyWrites ws c.fs.disk), lastAfter c.last call ws⟩

/-- A command that does not write the superblock by itself. -/
theorem CrashState.Strayed.of_command {c : CrashState} {call : Call} {fs : RexFS}
    (hnone : call.superStep = none) (h : Newrex.Strayed c.fs fs) :
    c.Strayed (.complete call) ⟨fs, c.last⟩ := by
  obtain ⟨hmount, ws, hlog⟩ := h
  refine ⟨hmount, ws, hlog, ?_⟩
  rw [lastAfter, hnone, Option.getD_none, ite_self]

/-- The runs of the kernel with power cuts. -/
def crashKernelRuns : TransitionSystem CrashState (Action × CrashState) :=
  crashRuns.undefine (fun c a => a.StaysInside c) CrashState.Strayed

/-- Those that stay inside the bitmap. -/
def crashInsideRuns : TransitionSystem CrashState (Action × CrashState) :=
  crashKernelRuns.restrict fun c e => e.1.StaysInside c

theorem crashInsideRuns_reachable {c : CrashState} (h : crashInsideRuns.Reachable c) :
    crashRuns.Reachable c :=
  (reachable_restrict_undefine.mp h).of_restrict

theorem crashInsideRuns_step {c : CrashState} (h : crashInsideRuns.Reachable c) {a : Action}
    (ha : a.StaysInside c) : crashInsideRuns.Reachable (c.step a) :=
  reachable_restrict_undefine.mpr ((reachable_restrict_undefine.mp h).step ⟨trivial, ha⟩)

theorem CrashState.foldl_complete_fs (c : CrashState) (ops : List Op) :
    ((ops.map fun op => Action.complete (.op op)).foldl CrashState.step c).fs =
      ops.foldl Op.step c.fs := by
  induction ops generalizing c with
  | nil => rfl
  | cons op ops ih => exact ih _

/-- Commands that leave the flag down. -/
theorem crashInsideRuns_commands {c : CrashState} (h : crashInsideRuns.Reachable c) {ops : List Op}
    (hflag : (ops.foldl Op.step c.fs).outOfBounds = false) :
    crashInsideRuns.Reachable
      ((ops.map fun op => Action.complete (.op op)).foldl CrashState.step c) := by
  induction ops generalizing c with
  | nil => exact h
  | cons op ops ih =>
    have hinside := (staysInside_of_unflagged hflag).2 [] op (List.prefix_append [op] ops)
    exact ih (crashInsideRuns_step h (a := .complete (.op op)) hinside) hflag

/-- The writes that a call can have made: blocks and inodes only, or first a superblock. -/
inductive CallWrites (call : Call) : List (Nat × Sector) → Prop
  | blocks {ws : List (Nat × Sector)} : (∀ w, w ∈ ws → 2 ≤ w.1) → CallWrites call ws
  | superblock {ws : List (Nat × Sector)} {b : Sector} {s : SuperStep} :
      call.superStep = some s → Stamped s b → (∀ w, w ∈ ws → 2 ≤ w.1) →
      CallWrites call ((1, b) :: ws)

namespace CallWrites

variable {call : Call} {ws : List (Nat × Sector)}

theorem nil : CallWrites call [] := .blocks fun _ hw => absurd hw List.not_mem_nil

theorem superblock_only {b : Sector} {s : SuperStep} (hs : call.superStep = some s)
    (hb : Stamped s b) : CallWrites call [(1, b)] :=
  .superblock hs hb fun _ hw => absurd hw List.not_mem_nil

theorem take (h : CallWrites call ws) (k : Nat) : CallWrites call (ws.take k) := by
  cases h with
  | blocks hge => exact .blocks fun w hw => hge w (List.mem_of_mem_take hw)
  | superblock hs hb hge =>
    cases k with
    | zero => exact .nil
    | succ k => exact .superblock hs hb fun w hw => hge w (List.mem_of_mem_take hw)

theorem stamped (h : CallWrites call ws) {last : SuperStep} {d : Disk} (hd : Stamped last (d 1)) :
    Stamped (lastAfter last call ws) (applyWrites ws d 1) := by
  have hne : ∀ {ws : List (Nat × Sector)}, (∀ w, w ∈ ws → 2 ≤ w.1) → ∀ w, w ∈ ws → w.1 ≠ 1 :=
    fun hge w hw h1 => absurd (hge w hw) (by omega)
  cases h with
  | blocks hge =>
    have hany : ws.any (·.1 = 1) = false := by
      rw [List.any_eq_false]
      exact fun w hw => by simpa using hne hge w hw
    rw [lastAfter, hany, applyWrites_of_ne (hne hge)]
    exact hd
  | superblock hs hb hge =>
    rw [lastAfter, applyWrites_cons, applyWrites_of_ne (hne hge), hs]
    simpa using hb

end CallWrites

/-- The invariant: the superblock is the one that `last` wrote, and a mounted file system
has its data offset. -/
structure CrashInv (c : CrashState) : Prop where
  superblock : Stamped c.last (c.fs.disk 1)
  offset : c.fs.fsMounted = true → c.fs.activeSb.dataOffset = 11

/-- What a call does: its writes, and the data offset that it leaves. -/
theorem call_writes {c : CrashState} (h : CrashInv c) (call : Call) :
    (∃ ws, Logged ws c.fs (call.run c.fs) ∧ CallWrites call ws) ∧
      ((call.run c.fs).fsMounted = true → (call.run c.fs).activeSb.dataOffset = 11) := by
  have hmount : ∀ call : Call, call.superStep = some .mount → call.run c.fs = c.fs.rexfsMount →
      (∃ ws, Logged ws c.fs (call.run c.fs) ∧ CallWrites call ws) ∧
        ((call.run c.fs).fsMounted = true → (call.run c.fs).activeSb.dataOffset = 11) := by
    intro call hs hrun
    obtain ⟨hoff, hlog⟩ := mount_logged c.fs h.superblock
    rw [hrun]
    exact ⟨⟨_, hlog, .superblock_only hs h.superblock.mount⟩, fun _ => hoff⟩
  cases call with
  | init =>
    refine hmount .init rfl ?_
    show c.fs.rexfsInit = _
    rw [rexfsInit, if_neg (not_not_intro h.superblock.magic)]
  | op o =>
    cases hop : o.isSuper with
    | false =>
      have hb := Op.blockWrites h.offset hop
      obtain ⟨ws, hws, hge⟩ := hb.writes
      refine ⟨⟨ws, hws, .blocks hge⟩, fun hm => ?_⟩
      have hm' : c.fs.fsMounted = true := hb.mounted.symm.trans hm
      show (o.step c.fs).activeSb.dataOffset = 11
      rw [hb.cached]
      exact h.offset hm'
    | true =>
      cases o with
      | mkfs capacity =>
        by_cases h0 : capacity = 0
        · have hrun : Call.run c.fs (.op (.mkfs capacity)) =
              (c.fs.printStringColor "[RexFS] Formatting partition...\n"
                colorLightCyan).printStringColor
                "Error: Failed to query disk capacity via ATA IDENTIFY.\n" colorLightRed := by
            show c.fs.rexfsMkfs capacity = _
            rw [rexfsMkfs, if_pos h0]
          rw [hrun]
          exact ⟨⟨[], .nil rfl rfl, .nil⟩, h.offset⟩
        · obtain ⟨hm, ws, hws, hge⟩ := mkfs_logged c.fs h0
          refine ⟨⟨_, hws, .superblock rfl (stamped_mkfs capacity) hge⟩, fun hmount' => ?_⟩
          change (c.fs.rexfsMkfs capacity).fsMounted = true at hmount'
          show (c.fs.rexfsMkfs capacity).activeSb.dataOffset = 11
          rw [hm] at hmount' ⊢
          exact h.offset hmount'
      | mount => exact hmount (.op .mount) rfl rfl
      | unmount =>
        show (∃ ws, Logged ws c.fs c.fs.rexfsUnmount ∧ _) ∧
          (c.fs.rexfsUnmount.fsMounted = true → c.fs.rexfsUnmount.activeSb.dataOffset = 11)
        unfold rexfsUnmount
        split
        · exact ⟨⟨[], .nil rfl rfl, .nil⟩, h.offset⟩
        · refine ⟨⟨_, ⟨rfl, rfl⟩, .superblock_only rfl h.superblock.unmount⟩, fun hm => ?_⟩
          exact absurd hm Bool.false_ne_true
      | _ => cases hop

theorem Logged.written {ws : List (Nat × Sector)} {st : RexFS} {call : Call}
    (h : Logged ws st (call.run st)) : call.written st = ws := by
  rw [Call.written, h.log, List.drop_left]

theorem step_crashInv {c : CrashState} (h : CrashInv c) (a : Action) : CrashInv (c.step a) := by
  cases a with
  | complete call =>
    obtain ⟨⟨ws, hlog, hws⟩, hoff⟩ := call_writes h call
    refine ⟨?_, hoff⟩
    show Stamped (lastAfter c.last call (call.written c.fs)) ((call.run c.fs).disk 1)
    rw [hlog.written, hlog.disk]
    exact hws.stamped h.superblock
  | cut call k =>
    obtain ⟨⟨ws, hlog, hws⟩, _⟩ := call_writes h call
    refine ⟨?_, fun hm => absurd hm Bool.false_ne_true⟩
    show Stamped (lastAfter c.last call ((call.written c.fs).take k))
      (applyWrites ((call.written c.fs).take k) c.fs.disk 1)
    rw [hlog.written]
    exact (hws.take k).stamped h.superblock

theorem reachable_crashInv {c : CrashState} (h : crashRuns.Reachable c) : CrashInv c := by
  refine h.invariant ?_ ?_
  · rintro _ ⟨st, capacity, hoff, h0, rfl⟩
    obtain ⟨hformat, hm, _⟩ := mkfs_formatted st h0
    refine ⟨?_, fun hmount => ?_⟩
    · show Stamped .mkfs ((rexfsMkfs st capacity).disk 1)
      rw [hformat.superblock]
      exact stamped_mkfs capacity
    · change (rexfsMkfs st capacity).fsMounted = true at hmount
      show (rexfsMkfs st capacity).activeSb.dataOffset = 11
      rw [hm] at hmount ⊢
      exact hoff hmount
  · intro c a _ hc _
    exact step_crashInv hc a

/-- The console output of a mount that takes the "not cleanly unmounted" branch. -/
def uncleanMount : List Print :=
  [.literal "[RexFS] Warning: Filesystem was not cleanly unmounted.\n" colorLightRed,
    .literal "[RexFS] Mounted successfully.\n" colorLightGreen]

/-- The branch is taken exactly when the flag is 0. -/
theorem rexfsMount_out {st : RexFS} {last : SuperStep} (h : Stamped last (st.disk 1)) :
    st.rexfsMount.out = st.out ++ uncleanMount ↔ last = .mount := by
  rw [← h.flag]
  simp only [rexfsMount, h.magic, h.version, ne_eq, not_true_eq_false, if_false]
  split
  · next h0 =>
    refine iff_of_true ?_ h0
    simp [printStringColor, RexFS.print, writeSector, uncleanMount]
  · next h0 =>
    refine iff_of_false (fun hout => ?_) h0
    simp [printStringColor, RexFS.print, writeSector, uncleanMount] at hout

/-- Unclean shutdowns are detected. In every state of a run with power cuts that stays inside the
bitmap, `mount` finds a valid superblock and takes the "not cleanly unmounted" branch exactly when
the last operation that wrote the superblock was a mount, also when `rexfs_init` calls it. Sector 1
is written by `mkfs`, `mount` and `unmount` only, as their first write, so that the block
and inode writes of all commands keep the superblock, wherever they are cut. -/
theorem run_unclean_detection {c : CrashState} (h : crashInsideRuns.Reachable c) :
    (NrSuperblock.ofSector (c.fs.disk 1)).magic = rexfsMagic ∧
    (NrSuperblock.ofSector (c.fs.disk 1)).version = rexfsVersion ∧
    (c.fs.rexfsMount.out = c.fs.out ++ uncleanMount ↔ c.last = .mount) ∧
    (c.fs.rexfsInit.out = c.fs.out ++ uncleanMount ↔ c.last = .mount) ∧
    ∀ (call : Call) (k : Nat), (Action.cut call k).StaysInside c →
      (∀ i w, ((call.written c.fs).take k)[i]? = some w → w.1 = 1 →
        call.superStep.isSome ∧ i = 0) ∧
      (call.superStep = none →
        applyWrites ((call.written c.fs).take k) c.fs.disk 1 = c.fs.disk 1) := by
  have hinv := reachable_crashInv (crashInsideRuns_reachable h)
  have hmount := rexfsMount_out hinv.superblock
  have hinit : c.fs.rexfsInit = c.fs.rexfsMount := by
    rw [rexfsInit, if_neg (not_not_intro hinv.superblock.magic)]
  refine ⟨hinv.superblock.magic, hinv.superblock.version, hmount, by rw [hinit]; exact hmount,
    fun call k _ => ?_⟩
  obtain ⟨⟨ws, hlog, hws⟩, _⟩ := call_writes hinv call
  rw [hlog.written]
  have htake := hws.take k
  generalize ws.take k = vs at htake ⊢
  refine ⟨fun i w hw h1 => ?_, fun hnone => ?_⟩
  · cases htake with
    | blocks hge =>
      have := hge w (List.mem_of_getElem? hw)
      omega
    | superblock hs _ hge =>
      cases i with
      | zero => exact ⟨by rw [hs]; rfl, rfl⟩
      | succ i =>
        have := hge w (List.mem_of_getElem? hw)
        omega
  · cases htake with
    | blocks hge =>
      refine applyWrites_of_ne (fun w hw h1 => ?_) _
      have := hge w hw
      omega
    | superblock hs =>
      rw [hnone] at hs
      cases hs

/-- A power cut in the middle of `touch f`, after a mount. -/
def sampleCut : CrashState :=
  [Action.complete (.op .mount), .cut (.op (.touch (.ofBuffer [102]))) 1].foldl CrashState.step
    ⟨(boot fun _ => Sector.zero).rexfsMkfs 64, .mkfs⟩

theorem formatted_crashInside :
    crashInsideRuns.Reachable ⟨(boot fun _ => Sector.zero).rexfsMkfs 64, .mkfs⟩ :=
  .init ⟨_, 64, fun hm => absurd hm Bool.false_ne_true, by decide, rfl⟩

theorem sampleCut_inside : crashInsideRuns.Reachable sampleCut := by
  have hmount : Action.StaysInside ⟨(boot fun _ => Sector.zero).rexfsMkfs 64, .mkfs⟩
      (.complete (.op .mount)) := Op.staysInside_of_unresolved rfl
  refine crashInsideRuns_step (a := .cut (.op (.touch (.ofBuffer [102]))) 1)
    (crashInsideRuns_step formatted_crashInside hmount) fun b hb => ?_
  exact absurd (List.mem_of_mem_filter (List.mem_of_mem_take hb)) List.not_mem_nil

theorem run_unclean_detection_sample :
    sampleCut.fs.rexfsMount.out = sampleCut.fs.out ++ uncleanMount :=
  (run_unclean_detection sampleCut_inside).2.2.1.mpr (by decide +kernel)

/-! ## A store that hits the superblock -/

/-- `rexfs_writehex` to the file in slot `s`, when the sector that it keeps on the stack has become
`sector`. In `iso/boot/newrex.bin` the variable `found_sector` lies at `bitmap[568]` while the
blocks of an indirect block are freed. Block 4556 has its bit there, that of 2, so that freeing it
turns sector 3 into sector 1. -/
def RexFS.writehexStrayed (st : RexFS) (s : Slot) (sector : Nat) (bytes : List UInt8) : RexFS :=
  let ino := st.disk.inode s
  let st := st.freeInodeBlocks ino
  let (st, ino, bytesWritten) :=
    writeBlocks bytes (blocksNeeded bytes.length) 0 st (clearPointers ino) 0
  let st := st.writeSector sector
    ((st.disk sector).putInode s.index { ino with size := UInt32.ofNat bytesWritten })
  st.printStringColor "Hex file written successfully.\n" colorLightGreen

theorem RexFS.writehexStrayed_strayed {st : RexFS} (hoff : st.activeSb.dataOffset = 11) (s : Slot)
    (sector : Nat) (bytes : List UInt8) : Strayed st (st.writehexStrayed s sector bytes) := by
  have hfree := (Confined.refl (Sector.marksBelow_bits (st.disk 10))).freeInodeBlocks
    (st.disk.inode s)
  have hblocks := writeBlocks_confined hoff (Nat.min_le_right _ _) bytes
    (blocksNeeded bytes.length) 0 _ (clearPointers (st.disk.inode s)) 0 hfree (Or.inl rfl)
  have hmount := (writeBlocks_unmoved bytes (blocksNeeded bytes.length) 0
    (st.freeInodeBlocks (st.disk.inode s)) (clearPointers (st.disk.inode s)) 0).mount
  obtain ⟨ws, hlog, -⟩ := hblocks.writes
  unfold RexFS.writehexStrayed
  dsimp only
  exact ⟨hmount.trans (freeInodeBlocks_toMountState _ _), _, (hlog.write _ _).print _ _⟩

/-- Eight files, and in the ninth slot, the first of sector 3, a file `a` that frees block 4556. -/
def plantFile : List Op :=
  [.mount, .touch (.ofBuffer [49]), .touch (.ofBuffer [50]), .touch (.ofBuffer [51]),
    .touch (.ofBuffer [52]), .touch (.ofBuffer [53]), .touch (.ofBuffer [54]),
    .touch (.ofBuffer [55]), .touch (.ofBuffer [56]), .touch (.ofBuffer [97])] ++
  plantPointer 0xCC 0x11 (by decide +kernel)

def plantedFile : CrashState :=
  (plantFile.map fun op => Action.complete (.op op)).foldl CrashState.step
    ⟨(boot fun _ => Sector.zero).rexfsMkfs 64, .mkfs⟩

/-- The hex digits `00`, written to the file `a`. -/
def strayWritehex : Op := .writehex (.ofBuffer [97, 32, 48, 48]) 0x200000

def overwrittenSuper : CrashState :=
  ⟨plantedFile.fs.writehexStrayed ninthSlot 1 [0], plantedFile.last⟩

/-- The run stays inside the bitmap until the last `writehex` leaves it. Both states are evaluated
together, as the run up to the first is long. -/
theorem plantedFile_eval : plantedFile.fs.outOfBounds = false ∧
    (¬ strayWritehex.StaysInside plantedFile.fs ∧
      strayWritehex.resolved plantedFile.fs = some ninthSlot ∧ strayWritehex.payload = [0] ∧
      plantedFile.fs.activeSb.dataOffset = 11 ∧ plantedFile.last = .mount) ∧
    ((overwrittenSuper.fs.writes.drop plantedFile.fs.writes.length).any (·.1 = 1)) = true ∧
      (NrSuperblock.ofSector (overwrittenSuper.fs.disk 1)).magic ≠ rexfsMagic := by
  decide +kernel

theorem plantedFile_inside : crashInsideRuns.Reachable plantedFile := by
  refine crashInsideRuns_commands formatted_crashInside ?_
  have hflag := plantedFile_eval.1
  rwa [plantedFile, CrashState.foldl_complete_fs] at hflag

theorem overwrittenSuper_reachable : crashKernelRuns.Reachable overwrittenSuper := by
  obtain ⟨hout, -, -, hoff, -⟩ := plantedFile_eval.2.1
  have hstray := RexFS.writehexStrayed_strayed hoff ninthSlot 1 [0]
  exact plantedFile_inside.of_restrict.stray_step (a := .complete (.op strayWritehex)) trivial hout
    (.of_command rfl hstray)

/-- The inode goes to sector 1, and the superblock is lost. -/
theorem stray_free_hits_superblock : crashKernelRuns.Reachable overwrittenSuper ∧
    (Call.op strayWritehex).superStep = none ∧
    ((overwrittenSuper.fs.writes.drop plantedFile.fs.writes.length).any (·.1 = 1)) = true ∧
    (NrSuperblock.ofSector (overwrittenSuper.fs.disk 1)).magic ≠ rexfsMagic :=
  ⟨overwrittenSuper_reachable, rfl, plantedFile_eval.2.2⟩

end Newrex
