import Newrex.Ata.Session
import Newrex.RexFS.Capacity

/-!
# RexFS on an ATA drive

The model of RexFS has a plain disk and a capacity. Here both come from a drive:
`ata_get_capacity` reads the capacity, and `read_sector` and `write_sector` do the rest.

* `ataGetCapacity_spec`: what `ata_get_capacity` returns, and when it does not return;
* `mkfs_late`: what `mkfs` leaves on a drive that works longer than the kernel pauses;
* `fileRun_on_drive`: the writes of a whole run of RexFS, sent through the driver with pauses that
  are long enough, leave the disk of the model on the drive.
-/

namespace Newrex

open PortIO Driver WriteLog RexFS TransitionSystem

/-! ## The capacity -/

/-- A channel without a drive: every port reads as the same value. -/
def floatingBus (v : UInt16) : Device Unit := ⟨fun _ _ _ => (), fun _ _ => ((), v), fun _ => ()⟩

namespace Drive

theorem status_ne_zero (d : Drive) : d.status.toUInt8 ≠ 0 := by
  rw [status]
  split
  · decide
  · split
    case h_1 error _ => cases error <;> decide
    case h_2 => decide

/-- The first loop waits until the drive has done its work. -/
theorem settle_ends (d : Drive) :
    Ends ataDrive
      (if d.status &&& 0x80 ≠ 0 then await 0x1F7 fun status => status &&& 0x80 = 0
        else pure d.status) d.tick (d.ready, d.ready.status) := by
  cases hbusy : d.busy with
  | zero =>
    have hready : d.ready = d := by rw [ready, ← hbusy]
    have htick : d.tick = d.ready := by rw [tick, hbusy]; rfl
    rw [if_neg (by rw [← hready, ready_status_busy]; decide), htick, hready]
    exact Ends.pure _ _
  | succ n =>
    rw [status_busy (by rw [hbusy]; exact Nat.succ_pos n), if_pos (by decide)]
    refine ends_await (polls_ready (d := d.tick) rfl ?_)
    show decide (d.ready.status &&& 0x80 = 0) = true
    rw [ready_status_busy]
    rfl

/-- `ata_get_capacity` from the command on. -/
theorem ataGetCapacity_ends_iff {d t : Drive} {r : Drive × UInt32}
    (hsend : Ends ataDrive (sendRegisters 0xA0 0x00 0x00 0x00 0x00 0xEC) d (t, ())) :
    Ends ataDrive ataGetCapacity d r ↔
      Ends ataDrive (readIdentity t.ready.status) t.ready r := by
  have hinput : Ends ataDrive (input 0x1F7) t (t.tick, t.status) := ends_input 0x1F7 t
  rw [ataGetCapacity, hsend.bind_iff, hinput.bind_iff, if_neg t.status_ne_zero,
    (settle_ends t).bind_iff]

/-- The drive returns words 60 and 61 of its identity. -/
theorem readIdentity_ends {d : Drive} (hbusy : d.busy = 0)
    (h : d.transfer = .toHost (List.ofFn d.identity) 0 0) :
    Ends ataDrive (readIdentity d.status) d
      ({ d with transfer := .none false },
        ((d.identity 61).toUInt32 <<< 16) ||| (d.identity 60).toUInt32) := by
  have htransferring : d.Transferring := fun error heq => by rw [h] at heq; cases heq
  rw [status_transferring hbusy htransferring, readIdentity, if_neg (by decide),
    if_neg (by decide)]
  refine (Ends.pure _ _).bind ?_
  have hwords := inputs_ends hbusy (by
    rw [← List.length_pos_iff, List.length_ofFn]
    decide) h
  rw [List.length_ofFn] at hwords
  refine hwords.bind ?_
  have hword (i : Nat) (hi : i < 256) : (List.ofFn d.identity).getD i 0 = d.identity ⟨i, hi⟩ := by
    rw [List.getD_eq_getElem _ _ (by rwa [List.length_ofFn]), List.getElem_ofFn]
  rw [hword 61 (by decide), hword 60 (by decide)]
  exact Ends.pure _ _

theorem not_readIdentity_ends {d : Drive} (hbusy : d.busy = 0) (h : d.transfer = .none false)
    (r : Drive × UInt32) : ¬ Ends ataDrive (readIdentity d.status) d r := by
  rw [status_free hbusy h, readIdentity, if_neg (by decide), if_pos (by decide)]
  intro hends
  obtain ⟨t, v, hawait, -⟩ := hends.of_bind
  exact not_await_ends ⟨false, h⟩ hbusy _ hawait

/-- What `ata_get_capacity` returns. A drive that is busy for more than five accesses does not
take the command; then the error flag of the command before decides. -/
theorem ataGetCapacity_spec {d : Drive} (h : d.Free) :
    (d.busy ≤ 5 → ∃ d', Ends ataDrive ataGetCapacity d
        (d', ((d.identity 61).toUInt32 <<< 16) ||| (d.identity 60).toUInt32) ∧
      d'.Idle ∧ d'.disk = d.disk) ∧
    (5 < d.busy → d.transfer = .none true → ∃ d', Ends ataDrive ataGetCapacity d (d', 0) ∧
      d'.Idle ∧ d'.disk = d.disk) ∧
    (5 < d.busy → d.transfer = .none false → ∀ r, ¬ Ends ataDrive ataGetCapacity d r) := by
  have hsend := sendRegisters_ends h 0xA0 0x00 0x00 0x00 0x00 0xEC
  have hcommand : (d.loaded 0xA0 0x00 0x00 0x00 0x00).write 0x1F7 0xEC =
      if 0 < d.busy - 5 then (d.loaded 0xA0 0x00 0x00 0x00 0x00).tick
      else (d.loaded 0xA0 0x00 0x00 0x00 0x00).setRegister 0x1F7 0xEC :=
    write_free (d := d.loaded 0xA0 0x00 0x00 0x00 0x00) h 0x1F7 0xEC
  refine ⟨fun hlate => ?_, fun hlate herror => ?_, fun hlate hfree r => ?_⟩
  · have hbusy : ¬ 0 < d.busy - 5 := by rw [Nat.sub_eq_zero_of_le hlate]; exact Nat.lt_irrefl 0
    rw [hcommand, if_neg hbusy] at hsend
    refine ⟨_, (ataGetCapacity_ends_iff hsend).mpr (readIdentity_ends rfl rfl), ?_, rfl⟩
    exact ⟨rfl, false, rfl⟩
  · rw [hcommand, if_pos (Nat.sub_pos_of_lt hlate)] at hsend
    refine ⟨(d.loaded 0xA0 0x00 0x00 0x00 0x00).tick.ready,
      (ataGetCapacity_ends_iff hsend).mpr ?_, ⟨rfl, h⟩, rfl⟩
    rw [status_free (d := (d.loaded 0xA0 0x00 0x00 0x00 0x00).tick.ready) rfl herror,
      readIdentity, if_pos (by decide)]
    exact Ends.pure _ _
  · rw [hcommand, if_pos (Nat.sub_pos_of_lt hlate)] at hsend
    rw [ataGetCapacity_ends_iff hsend]
    exact not_readIdentity_ends (d := (d.loaded 0xA0 0x00 0x00 0x00 0x00).tick.ready) rfl hfree r

/-- The capacity of the drive, and a drive that is still writing. -/
theorem ataGetCapacity_sample :
    (∃ d', Ends ataDrive ataGetCapacity (sample 3)
        (d', ((sample 3).identity 61).toUInt32 <<< 16 ||| ((sample 3).identity 60).toUInt32) ∧
      d'.Idle ∧ d'.disk = (sample 3).disk) ∧
    ∀ r, ¬ Ends ataDrive ataGetCapacity { sample 3 with busy := 6 } r :=
  ⟨(ataGetCapacity_spec (d := sample 3) ⟨false, rfl⟩).1 (by decide),
    (ataGetCapacity_spec (d := { sample 3 with busy := 6 }) ⟨false, rfl⟩).2.2 (by decide) rfl⟩

end Drive

/-- A channel without a drive. The value 0 is the answer that the code looks for; a value with
the busy bit blocks it. -/
theorem ataGetCapacity_floating (v : UInt16) :
    (v.toUInt8 = 0 → Ends (floatingBus v) ataGetCapacity () ((), 0)) ∧
      (v &&& 0x80 ≠ 0 → ∀ r, ¬ Ends (floatingBus v) ataGetCapacity () r) := by
  have hsend : Ends (floatingBus v) (sendRegisters 0xA0 0x00 0x00 0x00 0x00 0xEC) () ((), ()) :=
    ⟨0, rfl⟩
  have hinput : Ends (floatingBus v) (input 0x1F7) () ((), v) := ends_input 0x1F7 ()
  refine ⟨fun hzero => ?_, fun hbusy r => ?_⟩
  · rw [ataGetCapacity, hsend.bind_iff, hinput.bind_iff, if_pos hzero]
    exact Ends.pure _ _
  · have hne : v.toUInt8 ≠ 0 := by
      intro hzero
      have hlow : v &&& 0xFF = 0 := by
        refine UInt16.toNat.inj ?_
        have hmod : v.toNat % 2 ^ 8 = 0 := by
          rw [← UInt16.toNat_toUInt8, hzero]
          rfl
        rw [UInt16.toNat_and]
        show v.toNat &&& 2 ^ 8 - 1 = 0
        rw [Nat.and_two_pow_sub_one_eq_mod, hmod]
      refine hbusy ?_
      rw [show (0x80 : UInt16) = 0xFF &&& 0x80 from rfl, ← UInt16.and_assoc, hlow]
      rfl
    rw [ataGetCapacity, hsend.bind_iff, hinput.bind_iff, if_neg hne, if_pos hbusy]
    intro hends
    obtain ⟨t, w, hawait, -⟩ := hends.of_bind
    refine not_ends_await (P := fun _ => True) (fun s _ => ⟨?_, trivial⟩) trivial _ hawait
    show decide (v &&& 0x80 = 0) = false
    exact decide_eq_false hbusy

/-! ## Formatting a drive that works for long -/

namespace Session

/-- Writes, each with `n` pauses after it. -/
def ofWrites (n : Nat) (ws : List (Nat × Sector)) : Session :=
  ws.map fun w => (.write (UInt32.ofNat w.1) w.2, n)

end Session

/-- The sectors that `mkfs` writes. -/
def mkfsWrites (capacity : UInt32) : List (Nat × Sector) :=
  (1, (freshSuperblock capacity).toSector) ::
    [2, 3, 4, 5, 6, 7, 8, 9, 10].map fun lba => (lba, Sector.zero)

theorem mkfsWrites_le {capacity : UInt32} {w : Nat × Sector} (hw : w ∈ mkfsWrites capacity) :
    w.1 ≤ 10 := by
  have hall : ∀ lba, lba ∈ [1, 2, 3, 4, 5, 6, 7, 8, 9, 10] → lba ≤ 10 := by decide
  exact hall _ (List.mem_map_of_mem (f := Prod.fst) hw)

theorem mkfsWrites_logged (st : RexFS) {capacity : UInt32} (h0 : capacity ≠ 0) :
    Logged (mkfsWrites capacity) st (st.rexfsMkfs capacity) := by
  simp only [rexfsMkfs, h0, if_false, List.foldl_cons, List.foldl_nil]
  exact (Logged.nil rfl rfl)
    |>.print "[RexFS] Formatting partition...\n" colorLightCyan
    |>.write 1 (freshSuperblock capacity).toSector
    |>.print "[RexFS] Superblock written.\n" colorLightGreen
    |>.write 2 Sector.zero |>.write 3 Sector.zero |>.write 4 Sector.zero |>.write 5 Sector.zero
    |>.write 6 Sector.zero |>.write 7 Sector.zero |>.write 8 Sector.zero |>.write 9 Sector.zero
    |>.print "[RexFS] Inode table initialized.\n" colorLightGreen
    |>.write 10 Sector.zero
    |>.print "[RexFS] Bitmap initialized.\n" colorLightGreen
    |>.print "[RexFS] Done. Run: mount\n" colorLightGreen

/-- On small addresses only the low byte matters, and the first three accesses decide it. -/
theorem mixedAddress_small {lag old new : Nat} (hold : old < 2 ^ 8) (hnew : new < 2 ^ 8) :
    mixedAddress lag old new = if 2 < lag then old else new := by
  rw [mixedAddress]
  have h {c : Prop} [Decidable c] : (if c then old else new) < 2 ^ 8 := by split <;> assumption
  have hmid {c : Prop} [Decidable c] (k : Nat) : (if c then old else new) / 2 ^ (8 + k) = 0 := by
    refine Nat.div_eq_of_lt (Nat.lt_of_lt_of_le h ?_)
    exact Nat.pow_le_pow_right (by decide) (Nat.le_add_right 8 k)
  rw [hmid 0, hmid 8, hmid 16, Nat.mod_eq_of_lt h]
  rfl

namespace LateDisk

variable {capacity b n : Nat} {delay : Nat → Nat} (hdelay : ∀ k, delay k = b)

include hdelay

/-- Writes to small addresses when the drive is late by `lag` accesses for each of them. -/
theorem session_ofWrites {ws : List (Nat × Sector)} (hlt : ∀ w, w ∈ ws → w.1 < 2 ^ 8)
    (hin : ∀ w, w ∈ ws → w.1 < capacity) (hlate : b - n ≤ 5) (disk : Disk) {address : Nat}
    (haddress : address < 2 ^ 8) (hon : address < capacity) (periods : Nat) :
    ∃ address' periods', session capacity delay (Session.ofWrites n ws)
        ⟨disk, address, b - n, periods⟩ =
      some (⟨applyWrites (ws.map fun w => (if 2 < b - n then address else w.1, w.2)) disk,
        address', b - n, periods'⟩, []) := by
  induction ws generalizing disk address periods with
  | nil => exact ⟨address, periods, rfl⟩
  | cons w ws ih =>
    have hw := hlt w List.mem_cons_self
    obtain ⟨target, htarget⟩ : ∃ target, target = if 2 < b - n then address else w.1 := ⟨_, rfl⟩
    have hmixed : mixedAddress (b - n) address (UInt32.ofNat w.1).toNat = target := by
      rw [UInt32.toNat_ofNat', Nat.mod_eq_of_lt (Nat.lt_trans hw (by decide)),
        mixedAddress_small haddress hw, htarget]
    have hsmall : target < 2 ^ 8 := by rw [htarget]; split <;> assumption
    have hnear : target < capacity := by rw [htarget]; split; exacts [hon, hin w List.mem_cons_self]
    obtain ⟨address', periods', hsession⟩ := ih (fun v hv => hlt v (List.mem_cons_of_mem _ hv))
      (fun v hv => hin v (List.mem_cons_of_mem _ hv)) (Function.update disk target w.2)
      hsmall hnear (periods + 2)
    have hsame : (ws.map fun v => ((if 2 < b - n then target else v.1 : Nat), v.2)) =
        ws.map fun v => ((if 2 < b - n then address else v.1 : Nat), v.2) := by
      refine List.map_congr_left fun v _ => ?_
      rw [htarget]
      split <;> rfl
    refine ⟨address', periods', ?_⟩
    show session capacity delay ((.write (UInt32.ofNat w.1) w.2, n) :: Session.ofWrites n ws) _ = _
    rw [session_write hlate hmixed hnear, hdelay, hsession, hsame, List.map_cons, applyWrites_cons,
      htarget]

/-- `mkfs` on a drive that is late by `b - n` accesses from its second write on. -/
theorem session_mkfsWrites (hsize : 11 ≤ capacity) (hlate : b - n ≤ 5) (disk : Disk)
    (address periods : Nat) (sectors : UInt32) :
    ∃ address' periods', session capacity delay (Session.ofWrites n (mkfsWrites sectors))
        ⟨disk, address, 0, periods⟩ =
      some (⟨applyWrites
        ((mkfsWrites sectors).map fun w => (if 2 < b - n then 1 else w.1, w.2)) disk,
        address', b - n, periods'⟩, []) := by
  have hle {w : Nat × Sector} (hw : w ∈ (mkfsWrites sectors).tail) : w.1 ≤ 10 :=
    mkfsWrites_le (List.mem_of_mem_tail hw)
  have hon : 1 < capacity := Nat.lt_of_lt_of_le (by decide) hsize
  obtain ⟨address', periods', hsession⟩ := session_ofWrites hdelay
    (fun w hw => Nat.lt_of_le_of_lt (hle hw) (by decide))
    (fun w hw => Nat.lt_of_le_of_lt (hle hw) hsize) hlate
    (Function.update disk 1 (freshSuperblock sectors).toSector) (show 1 < 2 ^ 8 by decide) hon
    (periods + 2)
  refine ⟨address', periods', ?_⟩
  have hfirst : ((if 2 < b - n then 1 else 1 : Nat)) = 1 := ite_self 1
  show session capacity delay ((.write 1 _, n) :: Session.ofWrites n (mkfsWrites sectors).tail) _ =
    some (⟨applyWrites ((if 2 < b - n then 1 else 1, _) :: _) _, _, _, _⟩, _)
  rw [session_write (Nat.zero_le 5) (mixedAddress_zero _ _) hon, hdelay, hfirst, applyWrites_cons]
  exact hsession

/-- Later than five accesses, the second write of `mkfs` does not get through. -/
theorem session_mkfsWrites_stuck (hsize : 11 ≤ capacity) (hlate : 5 < b - n) (disk : Disk)
    (address periods : Nat) (sectors : UInt32) :
    session capacity delay (Session.ofWrites n (mkfsWrites sectors))
      ⟨disk, address, 0, periods⟩ = none := by
  have hon : 1 < capacity := Nat.lt_of_lt_of_le (by decide) hsize
  show session capacity delay ((.write 1 _, n) :: (.write 2 _, n) :: _) _ = _
  rw [session_write (Nat.zero_le 5) (mixedAddress_zero _ _) hon, hdelay]
  exact session_stuck hlate

end LateDisk

/-- `mkfs` on a drive that is busy for `b` accesses after each command and each sector, when the
kernel pauses for `n` of them after a sector. It formats the disk if the drive is late by at most
two accesses. Up to five, all sectors are written over the superblock. Beyond that the second
write never ends. -/
theorem mkfs_late {d : Drive} (h : d.Idle) {b : Nat} (hdelay : ∀ k, d.delay k = b) (n : Nat)
    (hsize : 11 ≤ d.capacity) {st : RexFS} (hdisk : d.disk = st.disk) {capacity : UInt32}
    (h0 : capacity ≠ 0) (vars : AtaVars) :
    (b - n ≤ 2 → ∃ d' r, Ends ataDrive
      ((Session.ofWrites n (mkfsWrites capacity)).perform vars) d (d', r) ∧
      d'.disk = (st.rexfsMkfs capacity).disk) ∧
    (2 < b - n → b - n ≤ 5 → ∃ d' r, Ends ataDrive
      ((Session.ofWrites n (mkfsWrites capacity)).perform vars) d (d', r) ∧
      d'.disk = Function.update st.disk 1 Sector.zero) ∧
    (5 < b - n → ∀ r, ¬ Ends ataDrive
      ((Session.ofWrites n (mkfsWrites capacity)).perform vars) d r) := by
  have hlast (hlate : b - n ≤ 5) : ∃ d' r, Ends ataDrive
      ((Session.ofWrites n (mkfsWrites capacity)).perform vars) d (d', r) ∧ d'.disk =
        applyWrites ((mkfsWrites capacity).map fun w => (if 2 < b - n then 1 else w.1, w.2))
          d.disk := by
    obtain ⟨address', periods', hsession⟩ :=
      LateDisk.session_mkfsWrites hdelay hsize hlate d.disk d.lba d.periods capacity
    obtain ⟨d', hends, hd'⟩ := h.shows.ends vars hsession
    exact ⟨d', _, hends, (congrArg LateDisk.disk hd'.eq).symm⟩
  refine ⟨fun hlag => ?_, fun hlag hlate => ?_, fun hlag => ?_⟩
  · obtain ⟨d', r, hends, hd'⟩ := hlast (Nat.le_trans hlag (by decide))
    refine ⟨d', r, hends, ?_⟩
    simp only [if_neg (Nat.not_lt_of_ge hlag), Prod.mk.eta, List.map_id'] at hd'
    rw [hd', (mkfsWrites_logged st h0).disk, hdisk]
  · obtain ⟨d', r, hends, hd'⟩ := hlast hlate
    refine ⟨d', r, hends, ?_⟩
    -- Ten writes over sector 1, the last nine of them blank.
    have hone : ((mkfsWrites capacity).map fun w => ((1 : Nat), w.2)) =
        (1, (freshSuperblock capacity).toSector) :: List.replicate 9 (1, Sector.zero) := rfl
    simp only [if_pos hlag, hone, List.replicate, applyWrites_cons, Function.update_idem] at hd'
    rw [hd', hdisk]
    rfl
  · exact h.shows.not_ends vars
      (LateDisk.session_mkfsWrites_stuck hdelay hsize hlag d.disk d.lba d.periods capacity)

theorem mkfs_late_sample : ∃ d' r, Ends ataDrive
      ((Session.ofWrites 0 (mkfsWrites 4096)).perform .boot) (Drive.sample 4) (d', r) ∧
    d'.disk = Function.update (boot fun _ => Sector.zero).disk 1 Sector.zero :=
  (mkfs_late (Drive.sample_idle 4) (fun _ => rfl) 0 (by decide) rfl (by decide) .boot).2.1
    (by decide) (by decide)

/-! ## Runs of RexFS on a drive -/

/-- File commands after `mkfs` and `mount`, in the kernel. -/
def fileRun (capacity : UInt32) (st : RexFS) (es : List (Op × RexFS)) : RexFS :=
  es.foldl (insideRuns (fileRuns capacity)).step (st.rexfsMkfs capacity).rexfsMount

section FileRun

variable {capacity : UInt32} (hcap : 11 ≤ capacity)

include hcap

/-- The commands of a run write on the disk only. -/
theorem InCapacity.run_logged {st : RexFS} (h : InCapacity capacity st) {es : List (Op × RexFS)}
    (hrun : (insideRuns (fileRuns capacity)).IsRun st es) :
    ∃ ws, Logged ws st (es.foldl (insideRuns (fileRuns capacity)).step st) ∧
      ∀ w, w ∈ ws → w.1 < min capacity.toNat 4096 := by
  induction es generalizing st with
  | nil => exact ⟨[], .nil rfl rfl, fun _ hw => absurd hw List.not_mem_nil⟩
  | cons e es ih =>
    obtain ⟨⟨⟨hop, hdefined, -⟩, hinside⟩, hrest⟩ := isRun_cons.mp hrun
    have hstep : e.2 = e.1.step st := hdefined hinside
    change (insideRuns (fileRuns capacity)).IsRun e.2 es at hrest
    show ∃ ws, Logged ws st (es.foldl (insideRuns (fileRuns capacity)).step e.2) ∧ _
    rw [hstep] at hrest ⊢
    obtain ⟨ws, hlog, harea⟩ := (h.confined hcap hop).writes
    obtain ⟨vs, hlogs, hlt⟩ := ih (h.step hcap hop) hrest
    refine ⟨ws ++ vs, hlog.trans hlogs, fun w hw => ?_⟩
    rcases List.mem_append.mp hw with hw | hw
    · have hhigh := (harea w hw).high
      have hfits := metadata_fits hcap
      omega
    · exact hlt w hw

theorem fileRun_logged (st : RexFS) {es : List (Op × RexFS)}
    (hrun : (insideRuns (fileRuns capacity)).IsRun (st.rexfsMkfs capacity).rexfsMount es) :
    ∃ ws, Logged ws st (fileRun capacity st es) ∧
      ∀ w, w ∈ ws → w.1 < min capacity.toNat 4096 := by
  have h0 := capacity_ne_zero hcap
  have hfits := metadata_fits hcap
  have hstamped : Stamped .mkfs ((st.rexfsMkfs capacity).disk 1) := by
    rw [(mkfs_formatted st h0).1.superblock]
    exact stamped_mkfs capacity
  obtain ⟨-, hmount⟩ := mount_logged (st.rexfsMkfs capacity) hstamped
  obtain ⟨ws, hlog, hlt⟩ := (inCapacity_init hcap st).run_logged hcap hrun
  refine ⟨_, ((mkfsWrites_logged st h0).trans hmount).trans hlog, fun w hw => ?_⟩
  rcases List.mem_append.mp hw with hw | hw
  · have hsmall : w.1 ≤ 10 := by
      rcases List.mem_append.mp hw with hw | hw
      · exact mkfsWrites_le hw
      · rw [List.mem_singleton] at hw
        subst hw
        exact Nat.succ_le_succ (Nat.zero_le 9)
    omega
  · exact hlt w hw

end FileRun

/-- `mkfs`, `mount` and any file commands that stay inside the bitmap, on a drive: when their
writes, in their order and with pauses that are long enough, go through the driver, the drive has
the disk of the model at the end, and reads in between return the sectors of the model's disk at
that point. -/
theorem fileRun_on_drive {capacity : UInt32} (hcap : 11 ≤ capacity) (st : RexFS)
    {es : List (Op × RexFS)}
    (hrun : (insideRuns (fileRuns capacity)).IsRun (st.rexfsMkfs capacity).rexfsMount es)
    {d : Drive} (h : d.Idle) (hdisk : d.disk = st.disk)
    (hsize : min capacity.toNat 4096 ≤ d.capacity) {calls : Session}
    (hwrites : calls.writes = (fileRun capacity st es).writes.drop st.writes.length)
    (hreads : ∀ lba n, (DiskCall.read lba, n) ∈ calls → lba.toNat % 2 ^ 28 < d.capacity)
    (hpauses : ∀ lba buffer n, (DiskCall.write lba buffer, n) ∈ calls → ∀ k, d.delay k ≤ n)
    (vars : AtaVars) :
    ∃ d' vars', Ends ataDrive (calls.perform vars) d (d', (vars', calls.reads st.disk)) ∧
      d'.Idle ∧ d'.disk = (fileRun capacity st es).disk := by
  obtain ⟨ws, hlog, hlt⟩ := fileRun_logged hcap st hrun
  rw [hlog.log, List.drop_left] at hwrites
  have hcovered : calls.Covered d.capacity d.delay := by
    refine ⟨fun c hc => ?_, hpauses⟩
    obtain ⟨call, n⟩ := c
    cases call with
    | read lba => exact hreads lba n hc
    | write lba buffer =>
      have hmem : (lba.toNat % 2 ^ 28, buffer) ∈ calls.writes := Session.mem_writes hc
      rw [hwrites] at hmem
      exact Nat.lt_of_lt_of_le (hlt _ hmem) hsize
  obtain ⟨d', vars', hends, hidle, hlast, -⟩ := session_covered h hcovered vars
  rw [hdisk] at hends hlast
  exact ⟨d', vars', hends, hidle, by rw [hlast, hwrites, hlog.disk]⟩

theorem Session.writes_ofWrites (n : Nat) {ws : List (Nat × Sector)}
    (h : ∀ w, w ∈ ws → w.1 < 2 ^ 28) : (Session.ofWrites n ws).writes = ws := by
  induction ws with
  | nil => rfl
  | cons w ws ih =>
    have hw := h w List.mem_cons_self
    have hlba : (UInt32.ofNat w.1).toNat % 2 ^ 28 = w.1 := by
      rw [UInt32.toNat_ofNat', Nat.mod_eq_of_lt (Nat.lt_trans hw (by decide)),
        Nat.mod_eq_of_lt hw]
    show ((UInt32.ofNat w.1).toNat % 2 ^ 28, w.2) :: (Session.ofWrites n ws).writes = _
    rw [hlba, ih fun v hv => h v (List.mem_cons_of_mem _ hv)]

/-- `touch a` on a fresh file system. -/
def sampleTouch : Op × RexFS :=
  (.touch (.ofLiteral "a"),
    (((boot fun _ => Sector.zero).rexfsMkfs 4096).rexfsMount).rexfsTouch (.ofLiteral "a"))

theorem sampleTouch_isRun : (insideRuns (fileRuns 4096)).IsRun
    ((boot fun _ => Sector.zero).rexfsMkfs 4096).rexfsMount [sampleTouch] := by
  have hinside : sampleTouch.1.StaysInside
      ((boot fun _ => Sector.zero).rexfsMkfs 4096).rexfsMount := Op.staysInside_of_unresolved rfl
  exact isRun_cons.mpr ⟨⟨⟨trivial, fun _ => rfl, fun hn => absurd hinside hn⟩, hinside⟩, isRun_nil⟩

theorem fileRun_on_drive_sample : ∃ calls d' vars',
    Ends ataDrive (Session.perform .boot calls) (Drive.sample 3)
      (d', (vars', calls.reads (Drive.sample 3).disk)) ∧
    d'.Idle ∧ d'.disk = (fileRun 4096 (boot fun _ => Sector.zero) [sampleTouch]).disk := by
  obtain ⟨ws, hlog, hlt⟩ :=
    fileRun_logged (show (11 : UInt32) ≤ 4096 by decide) (boot fun _ => Sector.zero)
      sampleTouch_isRun
  refine ⟨Session.ofWrites 3 ws, fileRun_on_drive (by decide) (boot fun _ => Sector.zero)
    sampleTouch_isRun (Drive.sample_idle 3) rfl (by decide) ?_ ?_ ?_ .boot⟩
  · rw [hlog.log, List.drop_left]
    exact Session.writes_ofWrites 3 fun w hw => Nat.lt_trans (hlt w hw) (by decide)
  · intro lba n hn
    obtain ⟨w, -, heq⟩ := List.mem_map.mp hn
    cases heq
  · intro lba buffer n hn k
    obtain ⟨w, -, heq⟩ := List.mem_map.mp hn
    cases heq
    exact Nat.le_refl 3

end Newrex
