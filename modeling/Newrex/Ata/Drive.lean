import Newrex.Disk
import Newrex.Lib.PortIO

/-!
# An ATA drive

A drive with 28-bit addresses on the primary channel, as it appears at the ports 0x1F0 to
0x1F7: the registers, and the transfer of a sector word by word. After a command, and after
each sector of a transfer, the drive is busy. How long is up to the drive: `delay` gives for each
of these periods the number of accesses for which it lasts. While the drive is busy it does not
take what is written to its registers, and while it transfers data it takes no command.

`Drive.Idle` are the states in which it takes a command.
-/

namespace Newrex

open PortIO

/-- What the drive does when it is not busy. -/
inductive Transfer
  /-- No data; the flag is the error bit of the status. -/
  | none (error : Bool)
  /-- The words of a sector that the host has still to read. Then `left` sectors follow, from
  `lba` on. -/
  | toHost (words : List UInt16) (lba left : Nat)
  /-- The words of sector `lba` that the host has written. Then `left` sectors follow. -/
  | fromHost (words : List UInt16) (lba left : Nat)
deriving DecidableEq, Repr

/-- The registers have the sector count and the address, `device` with its last four bits. -/
structure Drive where
  disk : Disk
  capacity : Nat
  identity : Fin 256 → UInt16
  delay : Nat → Nat
  periods : Nat
  sectorCount : UInt8
  lbaLow : UInt8
  lbaMid : UInt8
  lbaHigh : UInt8
  device : UInt8
  busy : Nat
  transfer : Transfer

namespace Sector

/-- Word `i` of the sector. -/
def word (s : Sector) (i : Nat) : UInt16 :=
  (s.byte (2 * i)).toUInt16 ||| ((s.byte (2 * i + 1)).toUInt16 <<< 8)

def words (s : Sector) : List UInt16 := (List.range 256).map s.word

/-- The sector with the given words. -/
def ofWords (words : List UInt16) : Sector := fun j =>
  let w := words.getD (j.val / 2) 0
  if j.val % 2 = 0 then (w &&& 0xFF).toUInt8 else (w >>> 8).toUInt8

end Sector

namespace Drive

/-- The address in the registers. -/
def lba (d : Drive) : Nat :=
  d.lbaLow.toNat + d.lbaMid.toNat * 2 ^ 8 + d.lbaHigh.toNat * 2 ^ 16 +
    d.device.toNat % 16 * 2 ^ 24

/-- The number of sectors in the registers; 0 stands for 256. -/
def sectors (d : Drive) : Nat := if d.sectorCount = 0 then 256 else d.sectorCount.toNat

/-- The drive is busy for its next period. -/
def work (d : Drive) (transfer : Transfer) : Drive :=
  { d with busy := d.delay d.periods, periods := d.periods + 1, transfer := transfer }

/-- An access, or the time for one, goes by. -/
def tick (d : Drive) : Drive := { d with busy := d.busy - 1 }

/-- Sector `lba` is next to be read, and `left` more behind it. -/
def serveRead (d : Drive) (lba left : Nat) : Drive :=
  if lba < d.capacity then d.work (.toHost (d.disk lba).words (lba + 1) left)
  else d.work (.none true)

def serveWrite (d : Drive) (lba left : Nat) : Drive :=
  if lba < d.capacity then d.work (.fromHost [] lba left) else d.work (.none true)

/-- READ SECTORS, WRITE SECTORS and IDENTIFY DEVICE; any other command is aborted. -/
def command (d : Drive) (code : UInt16) : Drive :=
  if code = 0x20 then d.serveRead d.lba (d.sectors - 1)
  else if code = 0x30 then d.serveWrite d.lba (d.sectors - 1)
  else if code = 0xEC then d.work (.toHost (List.ofFn d.identity) 0 0)
  else d.work (.none true)

/-- A word arrives; the last one of a sector stores it. -/
def takeWord (d : Drive) (words : List UInt16) (lba left : Nat) (w : UInt16) : Drive :=
  if words.length + 1 < 256 then { d with transfer := .fromHost (words ++ [w]) lba left }
  else
    let d := { d with disk := Function.update d.disk lba (Sector.ofWords (words ++ [w])) }
    match left with
    | 0 => d.work (.none false)
    | left + 1 => d.serveWrite (lba + 1) left

/-- A value is written to a register. -/
def setRegister (d : Drive) (port value : UInt16) : Drive :=
  if port = 0x1F2 then { d with sectorCount := value.toUInt8 }
  else if port = 0x1F3 then { d with lbaLow := value.toUInt8 }
  else if port = 0x1F4 then { d with lbaMid := value.toUInt8 }
  else if port = 0x1F5 then { d with lbaHigh := value.toUInt8 }
  else if port = 0x1F6 then { d with device := value.toUInt8 }
  else if port = 0x1F7 then d.command value
  else d

/-- A value is written to a port. -/
def write (d : Drive) (port value : UInt16) : Drive :=
  if 0 < d.busy then d.tick
  else
    match d.transfer with
    | .none _ => d.setRegister port value
    | .toHost _ _ _ => d
    | .fromHost words lba left => if port = 0x1F0 then d.takeWord words lba left value else d

/-- The status: busy 0x80, ready 0x40, data request 0x08, error 0x01. -/
def status (d : Drive) : UInt16 :=
  if 0 < d.busy then 0x80
  else
    match d.transfer with
    | .none error => if error then 0x41 else 0x40
    | _ => 0x48

/-- A port is read. -/
def read (d : Drive) (port : UInt16) : Drive × UInt16 :=
  if port = 0x1F7 then (d.tick, d.status)
  else if 0 < d.busy then (d.tick, 0)
  else
    match d.transfer with
    | .toHost (w :: words) lba left =>
      if port = 0x1F0 then
        match words, left with
        | [], 0 => ({ d with transfer := .none false }, w)
        | [], left + 1 => (d.serveRead lba left, w)
        | words, left => ({ d with transfer := .toHost words lba left }, w)
      else (d, 0)
    | _ => (d, 0)

end Drive

/-- The drive at its ports. -/
def ataDrive : Device Drive := ⟨Drive.write, Drive.read, Drive.tick⟩

end Newrex
