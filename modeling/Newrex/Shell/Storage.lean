import Newrex.RexFS.Crash
import Newrex.RexFS.Tree

/-!
# The storage commands of the shell

The branches of `execute_command` in `kernel/kernel.c` that touch the disk. Some words go
to RexFS when it is mounted and to raw sectors when it is not: `ls` and `cat` then use the
table `vfs` that `link` fills, and `write` replaces sector 1, which is the superblock.

A raw sector that the drive does not have keeps `read_sector` waiting for ever, so that a command
may not return. The commands of RexFS are those of its model, where the drive has every sector
that they address.

* `parseCommand` is the chain of `strcmp` and `starts_with` tests, in the order of the source.
* `run_unmounted`: while RexFS is unmounted, no command but `mkfs`, `mount` and `write`
  changes the disk.
* `LinesOnDisk`: no raw sector of a sequence of lines is missing on the drive.
* `unmounted_period`: what a mount finds after such a period; `write_destroys_superblock` is
  the case left out.
-/

namespace Newrex

open RexFS

/-! ## State and commands -/

/-- `fat_entry_t`. -/
structure FatEntry where
  name : List UInt8
  lba : UInt32

/-- RexFS, the number of sectors of the drive, and the table `vfs`, whose length is
`vfs_count`. -/
structure Shell where
  fs : RexFS
  sectors : Nat
  vfs : List FatEntry
  vfs_le : vfs.length ≤ 16

/-- What the hardware and the heap answer during a command: `ata_get_capacity`, `kmalloc`,
and what the allocated buffer held before. -/
structure Env where
  capacity : UInt32
  buffer : UInt32
  old : Nat → UInt8

/-- The commands, with the rest of the line as their argument. -/
inductive StorageCommand
  | mkfs
  | mount
  | unmount
  | fsinfo
  | mkdir (name : CString)
  | cd (path : CString)
  | pwd
  | touch (name : CString)
  | rm (name : CString)
  | writehex (cmdArgs : CString)
  | exec (filename : CString)
  | link (args : CString)
  | ls
  | cat (filename : CString)
  | write (text : CString)
  | sector (args : CString)

/-- `cmd + n` when `starts_with(cmd, word)` for a word of `n` characters. -/
def CString.after (cmd : CString) (word : String) : Option CString :=
  if (CString.ofLiteral word).chars.isPrefixOf cmd.chars then
    some ⟨cmd.chars.drop (CString.ofLiteral word).chars.length,
      fun c hc => cmd.nulFree c (List.mem_of_mem_drop hc)⟩
  else none

/-- `strcmp(cmd, word) == 0`. -/
def CString.is (cmd : CString) (word : String) (c : StorageCommand) : Option StorageCommand :=
  if cmd = CString.ofLiteral word then some c else none

/-- The tests of `execute_command` for the storage commands. -/
def parseCommand (cmd : CString) : Option StorageCommand :=
  cmd.is "mkfs" .mkfs <|> cmd.is "mount" .mount <|> cmd.is "unmount" .unmount <|>
  cmd.is "fsinfo" .fsinfo <|> (cmd.after "mkdir ").map .mkdir <|> (cmd.after "cd ").map .cd <|>
  cmd.is "pwd" .pwd <|> (cmd.after "touch ").map .touch <|> (cmd.after "rm ").map .rm <|>
  (cmd.after "writehex ").map .writehex <|> (cmd.after "exec ").map .exec <|>
  (cmd.after "link ").map .link <|> cmd.is "ls" .ls <|> (cmd.after "cat ").map .cat <|>
  (cmd.after "write ").map .write <|> (cmd.after "sector ").map .sector

/-! ## Raw sectors -/

/-- `read_sector`: the controller gets 28 bits of the address. For a sector that the drive does not
have it never delivers data, and the loop that waits for them does not end: `none`. -/
def Shell.readSector (sh : Shell) (lba : UInt32) : Option Sector :=
  if lba.toNat % 2 ^ 28 < sh.sectors then some (sh.fs.disk (lba.toNat % 2 ^ 28)) else none

/-- `parse_int`. -/
def parseInt (str : List UInt8) : UInt32 :=
  ((str.dropWhile (· = 32)).takeWhile fun c => 48 ≤ c ∧ c ≤ 57).foldl
    (fun res c => res * 10 + UInt32.ofNat (c.toNat - 48)) 0

/-- The branch of `link`. -/
def linkCommand (sh : Shell) (args : CString) : Shell :=
  if h : 16 ≤ sh.vfs.length then
    { sh with fs := sh.fs.printStringColor "Error: VFS table full.\n" colorLightRed }
  else
    let word := args.chars.takeWhile (· ≠ 32)
    let rest := args.chars.dropWhile (· ≠ 32)
    { sh with
      fs := sh.fs.printStringColor "File linked to FAT. Use 'ls' to view.\n" colorLightGreen
      vfs := sh.vfs ++ [⟨word.take 15, parseInt rest⟩]
      vfs_le := by rw [List.length_append, List.length_singleton]; omega }

/-- The branch of `ls` without RexFS. -/
def vfsList (sh : Shell) : Shell :=
  let fs := sh.fs.printStringColor "--- VIRTUAL FILE ALLOCATION TABLE ---\n" colorLightCyan
  let line := fun e : FatEntry => [.literal " [FILE] " colorWhite, .string e.name colorYellow,
    .literal " -> SECTOR " colorWhite, printedInt e.lba, .char 10]
  { sh with fs := { fs with out := fs.out ++ sh.vfs.flatMap line } }

/-- The branch of `cat` without RexFS: the characters of the linked sector in front of its
first NUL. -/
def vfsCat (sh : Shell) (filename : CString) : Option Shell :=
  match sh.vfs.find? fun e => e.name = filename.chars with
  | none => some { sh with fs := sh.fs.printStringColor "Error: File not found.\n" colorLightRed }
  | some e =>
    (sh.readSector e.lba).map fun buffer =>
      let text := (List.ofFn buffer).takeWhile (· ≠ 0)
      { sh with fs := { sh.fs with out := sh.fs.out ++ text.map Print.char ++ [.char 10] } }

/-- `sector_buffer` of the branch of `write`: at most 511 characters, then zeros. -/
def textSector (text : List UInt8) : Sector := fun j => (text.take 511).getD j 0

/-- The branch of `write` without RexFS. -/
def rawWrite (sh : Shell) (text : CString) : Option Shell :=
  if 1 < sh.sectors then
    let fs := sh.fs.writeSector 1 (textSector text.chars)
    let message := "Successfully wrote text to Physical Sector 1."
    some { sh with fs := fs.printStringColor message colorLightGreen }
  else none

/-- A character of `hex_chars`. -/
def hexChar (n : UInt8) : UInt8 := if n < 10 then 48 + n else 55 + n

/-- The console calls of the dump for byte `i`; each row of 16 ends with its characters. -/
def dumpByte (s : Sector) (i : Nat) : List Print :=
  let ascii := fun c : UInt8 =>
    if 32 ≤ c ∧ c ≤ 126 then Print.string [c] colorLightGreen else .string [46] colorLightGray
  [.string [hexChar (s.byte i >>> 4)] colorYellow,
    .string [hexChar (s.byte i &&& 0x0F)] colorYellow, .char 32] ++
    if (i + 1) % 16 = 0 then
      .literal " | " colorWhite :: (List.range 16).map (fun j => ascii (s.byte (i - 15 + j))) ++
        [.char 10]
    else []

/-- The branch of `sector`. -/
def sectorDump (sh : Shell) (args : CString) : Option Shell :=
  let lba := parseInt args.chars
  let fs := sh.fs.printStringColor "Reading Physical Hard Drive Sector " colorLightCyan
  (sh.readSector lba).map fun buffer =>
    let dump := (List.range 512).flatMap (dumpByte buffer)
    { sh with fs := { fs with out := fs.out ++ [printedInt lba, .char 10] ++ dump } }

/-- Runs one command; `none` if it does not return. -/
def StorageCommand.run (env : Env) (sh : Shell) : StorageCommand → Option Shell
  | mkfs => some { sh with fs := sh.fs.rexfsMkfs env.capacity }
  | mount => some { sh with fs := sh.fs.rexfsMount }
  | unmount => some { sh with fs := sh.fs.rexfsUnmount }
  | fsinfo => some { sh with fs := sh.fs.rexfsFsinfo }
  | mkdir name => some { sh with fs := sh.fs.rexfsMkdir name }
  | cd path => some { sh with fs := sh.fs.rexfsCd path }
  | pwd => some { sh with fs := sh.fs.rexfsPwd }
  | touch name => some { sh with fs := sh.fs.rexfsTouch name }
  | rm name => some { sh with fs := sh.fs.rexfsRm name }
  | writehex cmdArgs => some { sh with fs := (sh.fs.rexfsWritehex cmdArgs env.buffer).1 }
  | exec filename => some { sh with fs := (sh.fs.rexfsExec filename env.buffer env.old).1 }
  | link args => some (linkCommand sh args)
  | ls => if sh.fs.fsMounted then some { sh with fs := sh.fs.rexfsLs } else some (vfsList sh)
  | cat filename =>
    if sh.fs.fsMounted then some { sh with fs := sh.fs.rexfsCat filename }
    else vfsCat sh filename
  | write text =>
    if sh.fs.fsMounted then some { sh with fs := (sh.fs.rexfsWrite text).1 }
    else rawWrite sh text
  | sector args => sectorDump sh args

/-- `execute_command` for a storage command; `none` for any other line. -/
def executeCommand (env : Env) (sh : Shell) (cmd : CString) : Option (Option Shell) :=
  (parseCommand cmd).map fun c => c.run env { sh with fs := sh.fs.print (.char 10) }

/-- A sequence of command lines; `none` also if a command does not return. -/
def executeAll (sh : Shell) (lines : List (CString × Env)) : Option Shell :=
  lines.foldlM (fun sh line => (executeCommand line.2 sh line.1).join) sh

/-- The sector that a command reads at an address that the user chose. -/
def StorageCommand.rawRead (sh : Shell) : StorageCommand → Option UInt32
  | cat filename =>
    if sh.fs.fsMounted then none
    else (sh.vfs.find? fun e => e.name = filename.chars).map (·.lba)
  | sector args => some (parseInt args.chars)
  | _ => none

/-- Every raw sector that the lines read is one of the drive. -/
def LinesOnDisk : Shell → List (CString × Env) → Prop
  | _, [] => True
  | sh, line :: lines =>
    (∀ c, parseCommand line.1 = some c → ∀ lba, c.rawRead sh = some lba →
      lba.toNat % 2 ^ 28 < sh.sectors) ∧
    ∀ sh', (executeCommand line.2 sh line.1).join = some sh' → LinesOnDisk sh' lines

/-! ## Unmounted periods -/

/-- Commands that leave the disk alone while RexFS is unmounted. -/
def StorageCommand.quiet : StorageCommand → Bool
  | mkfs | mount | write _ => false
  | _ => true

/-- Commands that leave every sector but the first alone while RexFS is unmounted. -/
def StorageCommand.quietAboveOne : StorageCommand → Bool
  | mkfs | mount => false
  | _ => true

theorem createInode_unmounted {st : RexFS} (hm : st.fsMounted = false) (type : UInt16)
    (usage created : String) (name : CString) : createInode type usage created st name =
      st.printStringColor "Error: Filesystem is not mounted.\n" colorLightRed := by
  rw [createInode, hm]
  rfl

/-- What a command leaves of an unmounted disk: it stays unmounted, and every sector is the same,
or sector 1 was replaced by `write`. -/
structure Leaves (c : StorageCommand) (sh sh' : Shell) : Prop where
  unmounted : sh'.fs.fsMounted = false
  sectors : sh'.sectors = sh.sectors
  disk : sh'.fs.disk = sh.fs.disk ∨
    ∃ text b, c = .write text ∧ sh'.fs.disk = Function.update sh.fs.disk 1 b

theorem Leaves.silent {c : StorageCommand} {sh sh' : Shell} (hm : sh'.fs.fsMounted = false)
    (hs : sh'.sectors = sh.sectors) (hd : sh'.fs.disk = sh.fs.disk) : Leaves c sh sh' :=
  ⟨hm, hs, Or.inl hd⟩

theorem readSector_of_lt {sh : Shell} {lba : UInt32} (h : lba.toNat % 2 ^ 28 < sh.sectors) :
    sh.readSector lba = some (sh.fs.disk (lba.toNat % 2 ^ 28)) := if_pos h

/-- A command whose sectors the drive has returns. -/
theorem run_unmounted {sh : Shell} (hm : sh.fs.fsMounted = false) (hsize : 1 < sh.sectors)
    (env : Env) {c : StorageCommand} (hc : c.quietAboveOne = true)
    (hread : ∀ lba, c.rawRead sh = some lba → lba.toNat % 2 ^ 28 < sh.sectors) :
    ∃ sh', c.run env sh = some sh' ∧ Leaves c sh sh' := by
  cases c with
  | mkfs => cases hc
  | mount => cases hc
  | unmount =>
    refine ⟨_, rfl, ?_⟩
    simp only [rexfsUnmount, hm, Bool.not_false, if_true]
    exact .silent hm rfl rfl
  | fsinfo =>
    refine ⟨_, rfl, ?_⟩
    simp only [rexfsFsinfo, hm, Bool.not_false, if_true]
    exact .silent hm rfl rfl
  | mkdir name =>
    refine ⟨_, rfl, ?_⟩
    rw [rexfsMkdir, createInode_unmounted hm]
    exact .silent hm rfl rfl
  | cd path =>
    refine ⟨_, rfl, ?_⟩
    simp only [rexfsCd, hm, Bool.not_false, if_true]
    exact .silent hm rfl rfl
  | pwd =>
    refine ⟨_, rfl, ?_⟩
    simp only [rexfsPwd, hm, Bool.not_false, if_true]
    exact .silent hm rfl rfl
  | touch name =>
    refine ⟨_, rfl, ?_⟩
    rw [rexfsTouch, createInode_unmounted hm]
    exact .silent hm rfl rfl
  | rm name =>
    refine ⟨_, rfl, ?_⟩
    simp only [rexfsRm, hm, Bool.not_false, if_true]
    exact .silent hm rfl rfl
  | writehex cmdArgs =>
    refine ⟨_, rfl, ?_⟩
    simp only [rexfsWritehex, hm, Bool.not_false, if_true]
    exact .silent hm rfl rfl
  | exec filename =>
    refine ⟨_, rfl, ?_⟩
    simp only [rexfsExec, hm, Bool.not_false, if_true]
    exact .silent hm rfl rfl
  | link args =>
    refine ⟨_, rfl, ?_⟩
    unfold linkCommand
    split <;> exact .silent hm rfl rfl
  | ls =>
    simp only [StorageCommand.run, hm, Bool.false_eq_true, if_false]
    exact ⟨_, rfl, .silent hm rfl rfl⟩
  | cat filename =>
    simp only [StorageCommand.run, hm, Bool.false_eq_true, if_false, vfsCat]
    split
    · exact ⟨_, rfl, .silent hm rfl rfl⟩
    · next e hfind =>
      have hlba : StorageCommand.rawRead sh (.cat filename) = some e.lba := by
        simp only [StorageCommand.rawRead, hm, Bool.false_eq_true, if_false, hfind, Option.map_some]
      rw [readSector_of_lt (hread _ hlba)]
      exact ⟨_, rfl, .silent hm rfl rfl⟩
  | write text =>
    simp only [StorageCommand.run, hm, Bool.false_eq_true, if_false, rawWrite, hsize, if_true]
    exact ⟨_, rfl, hm, rfl, Or.inr ⟨text, textSector text.chars, rfl, rfl⟩⟩
  | sector args =>
    simp only [StorageCommand.run, sectorDump, Shell.readSector, hread _ rfl, if_true]
    exact ⟨_, rfl, .silent hm rfl rfl⟩

/-- A sequence of lines, all of them commands that stay above sector 1. -/
theorem executeAll_unmounted {sh : Shell} (hm : sh.fs.fsMounted = false) (hsize : 1 < sh.sectors)
    (lines : List (CString × Env))
    (hlines : ∀ line, line ∈ lines → ∃ c, parseCommand line.1 = some c ∧ c.quietAboveOne = true)
    (hdisk : LinesOnDisk sh lines) :
    ∃ sh', executeAll sh lines = some sh' ∧ sh'.fs.fsMounted = false ∧
      (∀ l, l ≠ 1 → sh'.fs.disk l = sh.fs.disk l) ∧
      ((∀ line, line ∈ lines → ∃ c, parseCommand line.1 = some c ∧ c.quiet = true) →
        sh'.fs.disk = sh.fs.disk) := by
  induction lines generalizing sh with
  | nil => exact ⟨sh, rfl, hm, fun _ _ => rfl, fun _ => rfl⟩
  | cons line lines ih =>
    obtain ⟨c, hparse, hc⟩ := hlines line List.mem_cons_self
    have hread : ∀ lba, c.rawRead { sh with fs := sh.fs.print (.char 10) } = some lba →
        lba.toNat % 2 ^ 28 < sh.sectors := hdisk.1 c hparse
    have hm0 : ({ sh with fs := sh.fs.print (.char 10) } : Shell).fs.fsMounted = false := hm
    obtain ⟨sh1, hrun1, hleaves⟩ := run_unmounted hm0 hsize line.2 hc hread
    have hfirst : (executeCommand line.2 sh line.1).join = some sh1 := by
      rw [executeCommand, hparse, Option.map_some, hrun1]
      rfl
    have hsize1 : 1 < sh1.sectors := by
      rw [hleaves.sectors]
      exact hsize
    obtain ⟨sh', hrun, hm', habove, hquiet⟩ := ih hleaves.unmounted hsize1
      (fun line' h => hlines line' (List.mem_cons_of_mem _ h)) (hdisk.2 sh1 hfirst)
    refine ⟨sh', ?_, hm', ?_, ?_⟩
    · rw [executeAll, List.foldlM_cons, hfirst]
      exact hrun
    · intro l hl
      rw [habove l hl]
      rcases hleaves.disk with hd | ⟨_, b, _, hd⟩
      · rw [hd]
        rfl
      · rw [hd, Function.update_of_ne hl]
        rfl
    · intro hall
      rw [hquiet fun line' h => hall line' (List.mem_cons_of_mem _ h)]
      obtain ⟨c', hparse', hc'⟩ := hall line List.mem_cons_self
      rw [hparse] at hparse'
      cases hparse'
      rcases hleaves.disk with hd | ⟨_, _, rfl, _⟩
      · rw [hd]
        rfl
      · cases hc'

/-- `unmount`, then `mount` on the same disk: only the flag of the superblock can differ. -/
theorem unmount_mount_disk {st st' : RexFS} {last : SuperStep} (hm : st.fsMounted = true)
    (hsb : Stamped last (st.disk 1)) (hd : st'.disk = st.rexfsUnmount.disk) :
    st'.rexfsMount.fsMounted = true ∧ (∀ l, l ≠ 1 → st'.rexfsMount.disk l = st.disk l) ∧
      (last = .mount → st'.rexfsMount.disk = st.disk) := by
  have hun : st.rexfsUnmount.disk = Function.update st.disk 1
      { NrSuperblock.ofSector (st.disk 1) with cleanShutdown := 1 }.toSector := by
    rw [rexfsUnmount, hm]
    rfl
  have hone : NrSuperblock.ofSector (st'.disk 1) =
      { NrSuperblock.ofSector (st.disk 1) with cleanShutdown := 1 } := by
    rw [hd, hun, Function.update_self, NrSuperblock.ofSector_toSector]
  obtain ⟨hdisk, hmount, _⟩ := mount_valid st' hone.symm hsb.magic hsb.version
  rw [hd, hun, Function.update_idem] at hdisk
  refine ⟨by rw [hmount], fun l hl => ?_, fun hlast => ?_⟩
  · rw [hdisk, Function.update_of_ne hl]
  · have hflag := hsb.flag.mpr hlast
    have hsame : { NrSuperblock.ofSector (st.disk 1) with cleanShutdown := 0 } =
        NrSuperblock.ofSector (st.disk 1) := by
      rw [← hflag]
    rw [hdisk]
    show Function.update st.disk 1
      { NrSuperblock.ofSector (st.disk 1) with cleanShutdown := 0 }.toSector = _
    rw [hsame, NrSuperblock.toSector_ofSector, Function.update_eq_self]

/-- Files survive an unmounted period. From any mounted state of a run that stays inside the bitmap:
`unmount`, then any lines that are storage commands other than `mkfs` and `mount` and read no raw
sector that the drive does not have. All of them return and leave every sector but the first alone.
If none of them is `write`, a mount succeeds and finds the same inodes, the same directory tree and
the same files; when `mkfs` was used since the last mount, the same files without a block in
sector 1. -/
theorem unmounted_period {c : CrashState} (h : crashInsideRuns.Reachable c)
    (hmounted : c.fs.fsMounted = true) {sh : Shell} (hsh : sh.fs = c.fs) (hsize : 1 < sh.sectors)
    (lines : List (CString × Env))
    (hlines : ∀ line, line ∈ lines → ∃ c, parseCommand line.1 = some c ∧ c.quietAboveOne = true)
    (hdisk : LinesOnDisk { sh with fs := sh.fs.rexfsUnmount } lines) :
    ∃ sh', executeAll { sh with fs := sh.fs.rexfsUnmount } lines = some sh' ∧
      (∀ l, l ≠ 1 → sh'.fs.disk l = sh.fs.disk l) ∧
      ((∀ line, line ∈ lines → ∃ c, parseCommand line.1 = some c ∧ c.quiet = true) →
        sh'.fs.rexfsMount.fsMounted = true ∧
        (∀ s, sh'.fs.rexfsMount.disk.inode s = sh.fs.disk.inode s) ∧
        sh'.fs.rexfsMount.disk.up = sh.fs.disk.up ∧
        ∀ s, c.last = .mount ∨ 1 ∉ sh.fs.disk.blocksOf (sh.fs.disk.inode s) →
          fileBytes sh'.fs.rexfsMount.disk (sh.fs.disk.inode s) =
            fileBytes sh.fs.disk (sh.fs.disk.inode s)) := by
  have hinv := reachable_crashInv (crashInsideRuns_reachable h)
  rw [← hsh] at hmounted
  have hsb : Stamped c.last (sh.fs.disk 1) := by
    rw [hsh]
    exact hinv.superblock
  have hun : sh.fs.rexfsUnmount.fsMounted = false ∧
      ∀ l, l ≠ 1 → sh.fs.rexfsUnmount.disk l = sh.fs.disk l := by
    rw [rexfsUnmount, hmounted]
    exact ⟨rfl, fun l hl => Function.update_of_ne hl _ _⟩
  have hun0 : ({ sh with fs := sh.fs.rexfsUnmount } : Shell).fs.fsMounted = false := hun.1
  obtain ⟨sh', hrun, _, habove, hquiet⟩ := executeAll_unmounted hun0 hsize lines hlines hdisk
  refine ⟨sh', hrun, fun l hl => (habove l hl).trans (hun.2 l hl), fun hall => ?_⟩
  obtain ⟨hm, hsame, hlast⟩ := unmount_mount_disk hmounted hsb (hquiet hall)
  have hinode : ∀ s, sh'.fs.rexfsMount.disk.inode s = sh.fs.disk.inode s :=
    fun s => Disk.inode_congr (fun l h2 _ => hsame l (by omega)) s
  refine ⟨hm, hinode, Disk.up_congr fun t => .of_eq (hinode t), fun s hs => ?_⟩
  refine fileBytes_congr fun b hb => ?_
  rcases hs with hmount | hnot
  · rw [hlast hmount]
  · exact hsame b fun h1 => hnot (h1 ▸ hb)

/-- A mounted file system with one file. -/
def sampleShell : Shell :=
  ⟨[Op.mount, .touch (.ofBuffer [102])].foldl Op.step ((boot fun _ => Sector.zero).rexfsMkfs 64),
    64, [], by decide⟩

/-- Answers of a machine with a disk of 64 sectors and no heap left. -/
def sampleEnv : Env := ⟨64, 0, fun _ => 0⟩

theorem unmounted_period_sample :
    ∃ sh', executeAll { sampleShell with fs := sampleShell.fs.rexfsUnmount }
        [(.ofLiteral "ls", sampleEnv)] = some sh' ∧ sh'.fs.rexfsMount.fsMounted = true := by
  have hreach := crashInsideRuns_commands formatted_crashInside
    (show ([Op.mount, .touch (.ofBuffer [102])].foldl Op.step
      ((boot fun _ => Sector.zero).rexfsMkfs 64)).outOfBounds = false by decide +kernel)
  have hls : ∀ quiet : StorageCommand → Bool, quiet .ls = true →
      ∀ line, line ∈ [(CString.ofLiteral "ls", sampleEnv)] →
        ∃ c, parseCommand line.1 = some c ∧ quiet c = true := by
    intro quiet hq line hline
    rw [List.mem_singleton.mp hline]
    exact ⟨.ls, rfl, hq⟩
  have hdisk : LinesOnDisk { sampleShell with fs := sampleShell.fs.rexfsUnmount }
      [(.ofLiteral "ls", sampleEnv)] := by
    refine ⟨fun c hc lba hlba => ?_, fun _ _ => trivial⟩
    cases (show parseCommand (.ofLiteral "ls") = some .ls from rfl).symm.trans hc
    cases hlba
  obtain ⟨sh', hrun, _, hquiet⟩ := unmounted_period hreach (by decide +kernel)
    (show sampleShell.fs = _ from rfl) (by decide) [(.ofLiteral "ls", sampleEnv)] (hls _ rfl) hdisk
  exact ⟨sh', hrun, (hquiet (hls _ rfl)).1⟩

/-- `write x` while unmounted replaces the superblock: the next mount finds no file system. -/
theorem write_destroys_superblock :
    ∃ sh', executeAll sampleShell [(.ofLiteral "unmount", sampleEnv),
        (.ofLiteral "write x", sampleEnv), (.ofLiteral "mount", sampleEnv)] = some sh' ∧
      sampleShell.fs.fsMounted = true ∧
      sh'.fs.fsMounted = false ∧
      sh'.fs.out.getLast? = some (.literal
        "Error: No valid RexFS signature on disk. Run: mkfs\n" colorLightRed) := by
  refine ⟨_, rfl, ?_, ?_, ?_⟩
  · decide +kernel
  · decide +kernel
  · decide +kernel

end Newrex
