import Mathlib.Data.List.GetD
import Newrex.Ata.Drive
import Newrex.Lib.WriteLog
import Newrex.Trace

/-!
# The ATA driver

`read_sector` and `write_sector` of `kernel/kernel.c` and `ata_get_capacity` of
`kernel/rexfs.c`, access by access. The rest of the kernel uses them as if the disk were a map
from addresses to sectors that a write changes at one place.
-/

namespace Newrex

open LittleEndian PortIO Driver

/-- The variables that the driver counts in, and the trace. -/
structure AtaVars where
  totalDiskReads : UInt32
  totalDiskWrites : UInt32
  trace : TraceRing

namespace AtaVars

/-- The variables at boot. -/
def boot : AtaVars := ⟨0, 0, .empty⟩

/-- What `read_sector` does after its loop. -/
def readExecuted (vars : AtaVars) : AtaVars :=
  { vars with
    totalDiskReads := vars.totalDiskReads + 1
    trace := sysTrace vars.trace (.ofLiteral "[ATA] Sector Read Executed") }

/-- What `write_sector` does after its loop. -/
def writeExecuted (vars : AtaVars) : AtaVars :=
  { vars with
    totalDiskWrites := vars.totalDiskWrites + 1
    trace := sysTrace vars.trace (.ofLiteral "[ATA] Sector Write Executed") }

end AtaVars

/-! ## The driver -/

/-- The registers, and then the command. -/
def sendRegisters (device sectorCount lbaLow lbaMid lbaHigh : UInt8) (code : UInt16) :
    Driver Unit := do
  outp 0x1F6 device.toUInt16
  outp 0x1F2 sectorCount.toUInt16
  outp 0x1F3 lbaLow.toUInt16
  outp 0x1F4 lbaMid.toUInt16
  outp 0x1F5 lbaHigh.toUInt16
  outp 0x1F7 code

/-- The accesses of `read_sector` and `write_sector` in front of their loops. -/
def sendCommand (lba : UInt32) (code : UInt16) : Driver Unit :=
  sendRegisters ((0xE0 : UInt32) ||| ((lba >>> 24) &&& 0x0F)).toUInt8 1 lba.toUInt8
    (lba >>> 8).toUInt8 (lba >>> 16).toUInt8 code

/-- `while ((status & 0x80) == 0x80)` and `while ((status & 0x08) == 0x00)`. -/
def awaitData : Driver Unit := do
  let _ ← await 0x1F7 fun status => status &&& 0x80 ≠ 0x80
  let _ ← await 0x1F7 fun status => status &&& 0x08 ≠ 0x00
  pure ()

/-- `read_sector`. -/
def ataReadSector (vars : AtaVars) (lba : UInt32) : Driver (AtaVars × Sector) := do
  sendCommand lba 0x20
  awaitData
  let words ← inputs 0x1F0 256
  pure (vars.readExecuted, Sector.ofWords words)

/-- `write_sector`. It does not wait until the drive has stored the sector. -/
def ataWriteSector (vars : AtaVars) (lba : UInt32) (buffer : Sector) : Driver AtaVars := do
  sendCommand lba 0x30
  awaitData
  outputs 0x1F0 buffer.words
  pure vars.writeExecuted

/-- `ata_get_capacity` when the drive is no longer busy. -/
def readIdentity (status : UInt16) : Driver UInt32 := do
  if status &&& 0x01 ≠ 0 then pure 0
  else
    let _ ←
      (if status &&& 0x08 = 0 then await 0x1F7 fun status => status &&& 0x08 ≠ 0 else pure status)
    let identityBlock ← inputs 0x1F0 256
    pure (((identityBlock.getD 61 0).toUInt32 <<< 16) ||| (identityBlock.getD 60 0).toUInt32)

/-- `ata_get_capacity`. -/
def ataGetCapacity : Driver UInt32 := do
  sendRegisters 0xA0 0x00 0x00 0x00 0x00 0xEC
  let status ← input 0x1F7
  if status.toUInt8 = 0 then pure 0
  else
    let status ←
      (if status &&& 0x80 ≠ 0 then await 0x1F7 fun status => status &&& 0x80 = 0 else pure status)
    readIdentity status

/-! ## Words and bytes -/

theorem toNat_word (low high : UInt8) :
    (low.toUInt16 ||| (high.toUInt16 <<< 8)).toNat = high.toNat * 2 ^ 8 + low.toNat := by
  have hlow := low.toNat_lt
  have hhigh := high.toNat_lt
  have hshift : (high.toUInt16 <<< 8).toNat = high.toNat <<< 8 := by
    rw [UInt16.toNat_shiftLeft, UInt8.toNat_toUInt16]
    show high.toNat <<< 8 % 2 ^ 16 = _
    rw [Nat.shiftLeft_eq, Nat.mod_eq_of_lt (by omega)]
  rw [UInt16.toNat_or, UInt8.toNat_toUInt16, hshift, Nat.or_comm, shiftLeft_or hlow]

/-- The bytes of a word. -/
theorem word_low (low high : UInt8) :
    ((low.toUInt16 ||| (high.toUInt16 <<< 8)) &&& 0xFF).toUInt8 = low := by
  have hlow := low.toNat_lt
  refine UInt8.toNat.inj ?_
  rw [UInt16.toNat_toUInt8, UInt16.toNat_and, toNat_word]
  show (_ &&& 2 ^ 8 - 1) % 2 ^ 8 = _
  rw [Nat.and_two_pow_sub_one_eq_mod]
  omega

theorem word_high (low high : UInt8) :
    ((low.toUInt16 ||| (high.toUInt16 <<< 8)) >>> 8).toUInt8 = high := by
  have hlow := low.toNat_lt
  have hhigh := high.toNat_lt
  refine UInt8.toNat.inj ?_
  rw [UInt16.toNat_toUInt8, UInt16.toNat_shiftRight, toNat_word]
  show _ >>> 8 % 2 ^ 8 = _
  rw [Nat.shiftRight_eq_div_pow]
  omega

namespace Sector

theorem length_words (s : Sector) : s.words.length = 256 := by
  rw [words, List.length_map, List.length_range]

/-- A sector that is taken apart into words is put together again. -/
theorem ofWords_words (s : Sector) : ofWords s.words = s := by
  funext j
  have hj := j.isLt
  have hget : s.words.getD (j.val / 2) 0 = s.word (j.val / 2) := by
    rw [List.getD_eq_getElem _ _ (by rw [length_words]; omega), List.getElem_of_eq rfl]
    simp [words]
  simp only [ofWords, hget, word]
  split
  case isTrue heven =>
    rw [word_low, show 2 * (j.val / 2) = j.val by omega, byte_of_lt s hj]
  case isFalse hodd =>
    rw [word_high, show 2 * (j.val / 2) + 1 = j.val by omega, byte_of_lt s hj]

end Sector

/-! ## The drive under the driver -/

/-- The address that the registers hold when the first `lag` accesses of a command have found the
drive busy: the bytes of the old address and of the new one. -/
def mixedAddress (lag old new : Nat) : Nat :=
  (if 2 < lag then old else new) % 2 ^ 8 +
    (if 3 < lag then old else new) / 2 ^ 8 % 2 ^ 8 * 2 ^ 8 +
    (if 4 < lag then old else new) / 2 ^ 16 % 2 ^ 8 * 2 ^ 16 +
    (if 0 < lag then old else new) / 2 ^ 24 % 16 * 2 ^ 24

namespace Drive

/-- The drive has no words to transfer. -/
def Free (d : Drive) : Prop := ∃ error, d.transfer = .none error

/-- The drive takes a command. -/
structure Idle (d : Drive) : Prop where
  settled : d.busy = 0
  free : d.Free

/-- The drive after its registers have been written. One that is written while the drive is
busy keeps its value. -/
def loaded (d : Drive) (device sectorCount lbaLow lbaMid lbaHigh : UInt8) : Drive :=
  { d with
    busy := d.busy - 5
    device := if 0 < d.busy then d.device else device
    sectorCount := if 1 < d.busy then d.sectorCount else sectorCount
    lbaLow := if 2 < d.busy then d.lbaLow else lbaLow
    lbaMid := if 3 < d.busy then d.lbaMid else lbaMid
    lbaHigh := if 4 < d.busy then d.lbaHigh else lbaHigh }

/-- The drive with the address of a sector in its registers. -/
def addressed (d : Drive) (lba : UInt32) : Drive :=
  d.loaded ((0xE0 : UInt32) ||| ((lba >>> 24) &&& 0x0F)).toUInt8 1 lba.toUInt8
    (lba >>> 8).toUInt8 (lba >>> 16).toUInt8

/-- Eight bits of the address are in each of three registers, and the next four in the last. -/
theorem addressed_lba (d : Drive) (lba : UInt32) :
    (d.addressed lba).lba = mixedAddress d.busy d.lba lba.toNat := by
  have hdevice : ((0xE0 : UInt32) ||| ((lba >>> 24) &&& 0x0F)).toUInt8.toNat % 16 =
      lba.toNat / 2 ^ 24 % 16 := by
    have hand : (lba >>> 24) &&& 0x0F = UInt32.ofNat (lba.toNat / 2 ^ 24 % 16) := by
      refine UInt32.toNat.inj ?_
      rw [UInt32.toNat_and, UInt32.toNat_shiftRight, UInt32.toNat_ofNat']
      show lba.toNat >>> 24 &&& 2 ^ 4 - 1 = _
      rw [Nat.and_two_pow_sub_one_eq_mod, Nat.shiftRight_eq_div_pow]
      omega
    have hall : ∀ n, n < 16 →
        ((0xE0 : UInt32) ||| UInt32.ofNat n).toUInt8.toNat % 16 = n := by decide
    rw [hand, hall _ (Nat.mod_lt _ (by decide))]
  have hlow : lba.toUInt8.toNat = lba.toNat % 2 ^ 8 := UInt32.toNat_toUInt8 lba
  have hmid : (lba >>> 8).toUInt8.toNat = lba.toNat / 2 ^ 8 % 2 ^ 8 := by
    rw [UInt32.toNat_toUInt8, UInt32.toNat_shiftRight, Nat.shiftRight_eq_div_pow]
    rfl
  have hhigh : (lba >>> 16).toUInt8.toNat = lba.toNat / 2 ^ 16 % 2 ^ 8 := by
    rw [UInt32.toNat_toUInt8, UInt32.toNat_shiftRight, Nat.shiftRight_eq_div_pow]
    rfl
  have holdLow := d.lbaLow.toNat_lt
  have holdMid := d.lbaMid.toNat_lt
  have holdHigh := d.lbaHigh.toNat_lt
  have hold : d.lba = d.lbaLow.toNat + d.lbaMid.toNat * 2 ^ 8 + d.lbaHigh.toNat * 2 ^ 16 +
    d.device.toNat % 16 * 2 ^ 24 := rfl
  generalize d.lba = old at hold
  have hlow : (if 2 < d.busy then d.lbaLow else lba.toUInt8).toNat =
      (if 2 < d.busy then old else lba.toNat) % 2 ^ 8 := by split <;> omega
  have hmid : (if 3 < d.busy then d.lbaMid else (lba >>> 8).toUInt8).toNat =
      (if 3 < d.busy then old else lba.toNat) / 2 ^ 8 % 2 ^ 8 := by split <;> omega
  have hhigh : (if 4 < d.busy then d.lbaHigh else (lba >>> 16).toUInt8).toNat =
      (if 4 < d.busy then old else lba.toNat) / 2 ^ 16 % 2 ^ 8 := by split <;> omega
  have hdevice : (if 0 < d.busy then d.device
        else ((0xE0 : UInt32) ||| ((lba >>> 24) &&& 0x0F)).toUInt8).toNat % 16 =
      (if 0 < d.busy then old else lba.toNat) / 2 ^ 24 % 16 := by split <;> omega
  simp only [Drive.lba, addressed, loaded, mixedAddress, hlow, hmid, hhigh, hdevice]

theorem write_free {d : Drive} (h : d.Free) (port value : UInt16) :
    d.write port value = if 0 < d.busy then d.tick else d.setRegister port value := by
  obtain ⟨error, hfree⟩ := h
  rw [Drive.write, hfree]

/-- The accesses of a command, on a drive that may still be busy. -/
theorem sendRegisters_ends {d : Drive} (h : d.Free)
    (device sectorCount lbaLow lbaMid lbaHigh : UInt8) (code : UInt16) :
    Ends ataDrive (sendRegisters device sectorCount lbaLow lbaMid lbaHigh code) d
      ((d.loaded device sectorCount lbaLow lbaMid lbaHigh).write 0x1F7 code, ()) := by
  have hstate : d.loaded device sectorCount lbaLow lbaMid lbaHigh =
      ((((d.write 0x1F6 device.toUInt16).write 0x1F2 sectorCount.toUInt16).write
        0x1F3 lbaLow.toUInt16).write 0x1F4 lbaMid.toUInt16).write 0x1F5 lbaHigh.toUInt16 := by
    obtain ⟨error, hfree⟩ := h
    -- the case says at which of the accesses the drive is no longer busy
    rcases hbusy : d.busy with _ | _ | _ | _ | _ | n
    all_goals
      simp only [Drive.write, hbusy, hfree, tick, setRegister, loaded, UInt8.toUInt8_toUInt16]
      simp
  exact ⟨0, by rw [hstate]; rfl⟩

theorem sendCommand_ends {d : Drive} (h : d.Free) (lba : UInt32) (code : UInt16) :
    Ends ataDrive (sendCommand lba code) d ((d.addressed lba).write 0x1F7 code, ()) :=
  sendRegisters_ends h _ _ _ _ _ code

/-- The drive has words to transfer once it is no longer busy. -/
def Transferring (d : Drive) : Prop := ∀ error, d.transfer ≠ .none error

/-- The drive when it has done its work. -/
def ready (d : Drive) : Drive := { d with busy := 0 }

theorem status_busy {d : Drive} (h : 0 < d.busy) : d.status = 0x80 := if_pos h

theorem status_transferring {d : Drive} (hbusy : d.busy = 0) (h : d.Transferring) :
    d.status = 0x48 := by
  rw [status, if_neg (by rw [hbusy]; exact Nat.lt_irrefl 0)]
  split
  case h_1 error herror => exact absurd herror (h error)
  case h_2 => rfl

theorem status_free {d : Drive} {error : Bool} (hbusy : d.busy = 0)
    (h : d.transfer = .none error) : d.status = if error then 0x41 else 0x40 := by
  rw [status, if_neg (by rw [hbusy]; exact Nat.lt_irrefl 0), h]

/-- The status of a drive that has done its work. -/
theorem ready_status_busy (d : Drive) : d.ready.status &&& 0x80 = 0 := by
  rw [status, if_neg (show ¬ 0 < d.ready.busy from Nat.lt_irrefl 0)]
  split
  case h_1 error _ => cases error <;> rfl
  case h_2 => rfl

/-- A loop that waits for something the drive shows when it has done its work. -/
theorem polls_ready {awaited : UInt16 → Bool} (hbusy : awaited 0x80 = false) {d : Drive}
    (hdone : awaited d.ready.status = true) :
    Polls ataDrive 0x1F7 awaited d (d.ready, d.ready.status) := by
  induction hn : d.busy generalizing d with
  | zero =>
    have hready : d.ready = d := by rw [ready, ← hn]
    have htick : d.tick = d.ready := by rw [tick, hn]; rfl
    have hread : ataDrive.read d 0x1F7 = (d, d.status) := by
      show (d.tick, d.status) = _
      rw [htick, hready]
    rw [hready] at hdone ⊢
    rw [← hread]
    exact .now (by rw [hread]; exact hdone)
  | succ n ih =>
    have hread : ataDrive.read d 0x1F7 = (d.tick, d.status) := rfl
    refine .later ?_ ?_
    · rw [hread]
      show awaited d.status = false
      rw [status_busy (by rw [hn]; exact Nat.succ_pos n), hbusy]
    · rw [hread]
      exact ih (d := d.tick) hdone (by rw [tick, hn]; rfl)

/-- The first loop reads the status until the drive is ready. -/
theorem polls_busy (d : Drive) :
    Polls ataDrive 0x1F7 (fun status => status &&& 0x80 ≠ 0x80) d (d.ready, d.ready.status) := by
  refine polls_ready rfl ?_
  rw [ready_status_busy]
  rfl

/-- The waiting loops end as soon as the drive has done its work. -/
theorem awaitData_ends {d : Drive} (h : d.Transferring) :
    Ends ataDrive awaitData d (d.ready, ()) := by
  refine (ends_await (polls_busy d)).bind ?_
  have hstatus : d.ready.status = 0x48 := status_transferring rfl h
  have hread : ataDrive.read d.ready 0x1F7 = (d.ready, d.ready.status) := rfl
  have hpoll : Polls ataDrive 0x1F7 (fun status => status &&& 0x08 ≠ 0x00) d.ready
      (d.ready, d.ready.status) := by
    rw [← hread]
    refine .now ?_
    rw [hread]
    show decide (d.ready.status &&& 0x08 ≠ 0x00) = true
    rw [hstatus]
    rfl
  exact (ends_await hpoll).bind (Ends.pure _ _)

/-- A drive that has no words to transfer leaves a loop waiting for its words. -/
theorem not_await_ends {d : Drive} (h : d.Free) (hbusy : d.busy = 0) (r : Drive × UInt16) :
    ¬ Ends ataDrive (await 0x1F7 fun status => status &&& 0x08 ≠ 0x00) d r := by
  refine not_ends_await (P := fun s => s.busy = 0 ∧ s.Free) ?_ ⟨hbusy, h⟩ r
  intro s hs
  obtain ⟨hsettled, error, hfree⟩ := hs
  refine ⟨?_, ⟨?_, error, hfree⟩⟩
  · show decide (s.status &&& 0x08 ≠ 0x00) = false
    rw [status_free hsettled hfree]
    cases error <;> rfl
  · show s.busy - 1 = 0
    rw [hsettled]

theorem not_awaitData_ends {d : Drive} (h : d.Free) (r : Drive × Unit) :
    ¬ Ends ataDrive awaitData d r := by
  rw [awaitData, (ends_await (polls_busy d)).bind_iff]
  intro hends
  obtain ⟨t, v, hsecond, -⟩ := hends.of_bind
  exact not_await_ends (d := d.ready) h rfl _ hsecond

/-- The words of the last sector of a transfer. -/
theorem inputs_ends {words : List UInt16} {d : Drive} {lba : Nat} (hbusy : d.busy = 0)
    (hne : words ≠ []) (h : d.transfer = .toHost words lba 0) :
    Ends ataDrive (inputs 0x1F0 words.length) d ({ d with transfer := .none false }, words) := by
  induction words generalizing d with
  | nil => exact absurd rfl hne
  | cons w words ih =>
    have hbusy' : ¬ 0 < d.busy := by rw [hbusy]; exact Nat.lt_irrefl 0
    cases words with
    | nil =>
      have hread : ataDrive.read d 0x1F0 = ({ d with transfer := .none false }, w) := by
        show d.read 0x1F0 = _
        rw [Drive.read, if_neg (by decide), if_neg hbusy', h]
        rfl
      have hends := ends_input (D := ataDrive) 0x1F0 d
      rw [hread] at hends
      exact hends.bind ((Ends.pure _ _).bind (Ends.pure _ _))
    | cons w' words =>
      have hread : ataDrive.read d 0x1F0 =
          ({ d with transfer := .toHost (w' :: words) lba 0 }, w) := by
        show d.read 0x1F0 = _
        rw [Drive.read, if_neg (by decide), if_neg hbusy', h]
        rfl
      have hends := ends_input (D := ataDrive) 0x1F0 d
      rw [hread] at hends
      refine hends.bind ?_
      have hrest := ih (d := { d with transfer := .toHost (w' :: words) lba 0 }) hbusy
        (List.cons_ne_nil _ _) rfl
      exact hrest.bind (Ends.pure _ _)

/-- The words of a sector that is stored when the last of them arrives. -/
theorem outputs_ends {rest words : List UInt16} {d : Drive} {lba : Nat} (hbusy : d.busy = 0)
    (hne : rest ≠ []) (hlen : words.length + rest.length = 256)
    (h : d.transfer = .fromHost words lba 0) :
    Ends ataDrive (outputs 0x1F0 rest) d
      (({ d with disk := Function.update d.disk lba (Sector.ofWords (words ++ rest)) }).work
        (.none false), ()) := by
  induction rest generalizing words d with
  | nil => exact absurd rfl hne
  | cons w rest ih =>
    have hbusy' : ¬ 0 < d.busy := by rw [hbusy]; exact Nat.lt_irrefl 0
    have hwrite : ataDrive.write d 0x1F0 w = d.takeWord words lba 0 w := by
      show d.write 0x1F0 w = _
      rw [Drive.write, if_neg hbusy', h]
      rfl
    refine (ends_outp 0x1F0 w d).bind ?_
    rw [hwrite, takeWord]
    rw [List.length_cons] at hlen
    cases rest with
    | nil =>
      have hlast : words.length + 1 = 256 := hlen
      rw [if_neg (by rw [hlast]; exact Nat.lt_irrefl 256)]
      exact Ends.pure _ _
    | cons w' rest =>
      have hshort : words.length + 1 < 256 := by
        rw [List.length_cons] at hlen
        omega
      rw [if_pos hshort]
      have hsum : (words ++ [w]).length + (w' :: rest).length = 256 := by
        rw [List.length_append, List.length_singleton]
        omega
      have hends := ih (d := { d with transfer := .fromHost (words ++ [w]) lba 0 }) hbusy
        (List.cons_ne_nil _ _) hsum rfl
      rwa [List.append_assoc, List.singleton_append] at hends

/-! ## A sector -/

/-- The command goes through, and its address is on the disk. -/
structure Accepts (d : Drive) (lba : UInt32) : Prop where
  late : d.busy ≤ 5
  onDisk : (d.addressed lba).lba < d.capacity

/-- The drive has been told to transfer one sector. -/
def Single (d : Drive) : Prop := d.busy = 0 ∨ d.sectorCount = 1

theorem addressed_count {d : Drive} (h : d.Single) (lba : UInt32) :
    (d.addressed lba).sectorCount = 1 := by
  show (if 1 < d.busy then d.sectorCount else 1) = 1
  rcases h with h | h
  · rw [if_neg (by rw [h]; decide)]
  · rw [h, ite_self]

theorem addressed_sectors {d : Drive} (h : d.Single) (lba : UInt32) :
    (d.addressed lba).sectors = 1 := by
  rw [sectors, addressed_count h]
  rfl

/-- The command register is written when the drive is no longer busy. -/
theorem Accepts.write {d : Drive} {lba : UInt32} (h : d.Accepts lba) (hfree : d.Free)
    (code : UInt16) : (d.addressed lba).write 0x1F7 code = (d.addressed lba).command code := by
  have hbusy : (d.addressed lba).busy = 0 := Nat.sub_eq_zero_of_le h.late
  rw [write_free (d := d.addressed lba) hfree, if_neg (by rw [hbusy]; exact Nat.lt_irrefl 0)]
  rfl

/-- The drive has taken no command, or has refused it. -/
theorem not_accepts_free {d : Drive} {lba : UInt32} (h : ¬ d.Accepts lba) (hfree : d.Free)
    {code : UInt16} (hcode : code = 0x20 ∨ code = 0x30) :
    ((d.addressed lba).write 0x1F7 code).Free := by
  rw [write_free (d := d.addressed lba) hfree]
  split
  case isTrue => exact hfree
  case isFalse hsettled =>
    have hlate : d.busy ≤ 5 := by
      have hbusy : ¬ 0 < d.busy - 5 := hsettled
      omega
    have hout : ¬ (d.addressed lba).lba < (d.addressed lba).capacity := fun hin => h ⟨hlate, hin⟩
    refine ⟨true, ?_⟩
    show ((d.addressed lba).command code).transfer = _
    rcases hcode with rfl | rfl
    · rw [command, if_pos rfl, serveRead, if_neg hout]
      rfl
    · rw [command, if_neg (by decide), if_pos rfl, serveWrite, if_neg hout]
      rfl

theorem ataReadSector_ends (vars : AtaVars) {d : Drive} {lba : UInt32} (hfree : d.Free)
    (hsingle : d.Single) (h : d.Accepts lba) :
    Ends ataDrive (ataReadSector vars lba) d
      ({ d.addressed lba with busy := 0, periods := d.periods + 1, transfer := .none false },
        (vars.readExecuted, d.disk (d.addressed lba).lba)) := by
  have hsend := sendCommand_ends hfree lba 0x20
  rw [h.write hfree, command, if_pos rfl, addressed_sectors hsingle, serveRead,
    if_pos (show _ < (d.addressed lba).capacity from h.onDisk)] at hsend
  refine hsend.bind ((awaitData_ends ?_).bind ?_)
  · intro error heq
    cases heq
  · have hwords := inputs_ends (d := ((d.addressed lba).work (.toHost
        ((d.addressed lba).disk (d.addressed lba).lba).words ((d.addressed lba).lba + 1)
        0)).ready) rfl
      (by rw [← List.length_pos_iff, Sector.length_words]; decide) rfl
    rw [Sector.length_words] at hwords
    refine hwords.bind ?_
    show Ends ataDrive (pure (vars.readExecuted,
      Sector.ofWords (d.disk (d.addressed lba).lba).words)) _ _
    rw [Sector.ofWords_words]
    exact Ends.pure _ _

theorem ataWriteSector_ends (vars : AtaVars) {d : Drive} {lba : UInt32} (buffer : Sector)
    (hfree : d.Free) (hsingle : d.Single) (h : d.Accepts lba) :
    Ends ataDrive (ataWriteSector vars lba buffer) d
      ({ d.addressed lba with
          disk := Function.update d.disk (d.addressed lba).lba buffer
          busy := d.delay (d.periods + 1)
          periods := d.periods + 2
          transfer := .none false },
        vars.writeExecuted) := by
  have hsend := sendCommand_ends hfree lba 0x30
  rw [h.write hfree, command, if_neg (by decide), if_pos rfl, addressed_sectors hsingle,
    serveWrite, if_pos (show _ < (d.addressed lba).capacity from h.onDisk)] at hsend
  refine hsend.bind ((awaitData_ends ?_).bind ?_)
  · intro error heq
    cases heq
  · have hlen : ([] : List UInt16).length + buffer.words.length = 256 := by
      rw [Sector.length_words]
      rfl
    have hne : buffer.words ≠ [] := by
      rw [← List.length_pos_iff, Sector.length_words]
      decide
    have hwords := outputs_ends
      (d := ((d.addressed lba).work (.fromHost [] (d.addressed lba).lba 0)).ready) rfl hne hlen rfl
    rw [List.nil_append, Sector.ofWords_words] at hwords
    exact hwords.bind (Ends.pure _ _)

theorem not_ataReadSector_ends (vars : AtaVars) {d : Drive} {lba : UInt32} (hfree : d.Free)
    (h : ¬ d.Accepts lba) (r : Drive × AtaVars × Sector) :
    ¬ Ends ataDrive (ataReadSector vars lba) d r := by
  rw [ataReadSector, (sendCommand_ends hfree lba 0x20).bind_iff]
  intro hends
  obtain ⟨t, u, hawait, -⟩ := hends.of_bind
  exact not_awaitData_ends (not_accepts_free h hfree (.inl rfl)) _ hawait

theorem not_ataWriteSector_ends (vars : AtaVars) {d : Drive} {lba : UInt32} (buffer : Sector)
    (hfree : d.Free) (h : ¬ d.Accepts lba) (r : Drive × AtaVars) :
    ¬ Ends ataDrive (ataWriteSector vars lba buffer) d r := by
  rw [ataWriteSector, (sendCommand_ends hfree lba 0x30).bind_iff]
  intro hends
  obtain ⟨t, u, hawait, -⟩ := hends.of_bind
  exact not_awaitData_ends (not_accepts_free h hfree (.inr rfl)) _ hawait

end Drive

end Newrex
