import Newrex.Lib.Dispatch
import Newrex.Shell.Storage

/-!
# The chain of commands

`execute_command` in `kernel/kernel.c` is one chain of tests of the line, each with `strcmp` or
`starts_with`; the tests for three of the words also ask `rexfs_is_mounted`, and those for
`mode ` are there twice. `chain` has all of them in the order of the source. Under it is a table
of words: each of them has one entry, and no line fits two.

* `dispatch_words`: the chain does what the table of words says, in whatever order the words
  are tried, and the newline in front of the prompt is left out behind `clear` only;
* `branch_runs_iff`: every branch runs on some line, except for the second one for `mode `;
* `dispatch_storage`: on every line the branch that runs is the one that the model of the
  storage commands runs.
-/

namespace Newrex

open Dispatch

/-! ## The chain -/

/-- The branches of `execute_command`, mostly under the name of the function that they call. -/
inductive Branch
  | help
  | dumpBootinfo
  | vmmDumpInfo
  | pmmDumpInfo
  | dumpMeminfo
  | rexfsMkfs
  | rexfsMount
  | rexfsUnmount
  | rexfsFsinfo
  | rexfsMkdir
  | rexfsCd
  | rexfsPwd
  | rexfsTouch
  | rexfsRm
  | rexfsWritehex
  | rexfsExec
  | dumpDiskinfo
  | pciDumpAll
  | rtl8139DumpInfo
  | netPing
  | netUdpSend
  | clearScreen
  | memmap
  | kernelPanic
  | vgamode
  | link
  | rexfsLs
  | vfsList
  | rexfsCat
  | vfsCat
  | daemon
  | time
  | kmalloc
  | kfree
  | sysinfo
  | run
  | trace
  | mode
  | monitor
  /-- The second branch for `mode `, with another text in its usage message. -/
  | modeAgain
  | watch
  | inject
  | rexfsWrite
  | rawWrite
  | sector
  | peek
  | poke
  | dump
deriving DecidableEq

/-- A word of the shell, tested with `starts_with` or with `strcmp`. -/
structure Pattern where
  word : String
  starts : Bool
deriving DecidableEq

/-- The rest of a line that fits. -/
def Pattern.rest (p : Pattern) (cmd : CString) : Option CString :=
  if p.starts then cmd.after p.word
  else if cmd = .ofLiteral p.word then some (.ofLiteral "")
  else none

/-- One test of the chain. -/
structure Test where
  pattern : Pattern
  /-- The test has `&& rexfs_is_mounted()`. -/
  mounted : Bool
  branch : Branch
deriving DecidableEq

def Test.rest (fsMounted : Bool) (t : Test) (cmd : CString) : Option CString :=
  if t.mounted && !fsMounted then none else t.pattern.rest cmd

/-- `strcmp(cmd, word) == 0`. -/
def is (word : String) : Branch → Test := .mk ⟨word, false⟩ false

/-- `starts_with(cmd, word)`. -/
def starts (word : String) : Branch → Test := .mk ⟨word, true⟩ false

/-- The tests of `execute_command`. -/
def chain : List Test :=
  [is "help" .help, is "bootinfo" .dumpBootinfo, is "vmminfo" .vmmDumpInfo,
    is "pmm" .pmmDumpInfo, is "meminfo" .dumpMeminfo, is "mkfs" .rexfsMkfs,
    is "mount" .rexfsMount, is "unmount" .rexfsUnmount, is "fsinfo" .rexfsFsinfo,
    starts "mkdir " .rexfsMkdir, starts "cd " .rexfsCd, is "pwd" .rexfsPwd,
    starts "touch " .rexfsTouch, starts "rm " .rexfsRm, starts "writehex " .rexfsWritehex,
    starts "exec " .rexfsExec, is "diskinfo" .dumpDiskinfo, is "pci" .pciDumpAll,
    is "netinfo" .rtl8139DumpInfo, starts "ping " .netPing, starts "udpsend " .netUdpSend,
    is "clear" .clearScreen, is "memmap" .memmap, is "panic" .kernelPanic,
    is "vgamode" .vgamode, starts "link " .link, ⟨⟨"ls", false⟩, true, .rexfsLs⟩,
    is "ls" .vfsList, ⟨⟨"cat ", true⟩, true, .rexfsCat⟩, starts "cat " .vfsCat,
    starts "daemon " .daemon, is "time" .time, starts "kmalloc " .kmalloc,
    starts "kfree " .kfree, is "sysinfo" .sysinfo, starts "run " .run, is "trace" .trace,
    starts "mode " .mode, is "monitor" .monitor, starts "mode " .modeAgain,
    starts "watch " .watch, starts "inject " .inject,
    ⟨⟨"write ", true⟩, true, .rexfsWrite⟩, starts "write " .rawWrite,
    starts "sector " .sector, starts "peek " .peek, starts "poke " .poke, starts "dump " .dump]

/-- The branch that `execute_command` runs, with the rest of the line. -/
def dispatch (fsMounted : Bool) (cmd : CString) : Option (Branch × CString) :=
  (select (Test.rest fsMounted) chain cmd).map fun tr => (tr.1.branch, tr.2)

/-- What `command_buffer` holds behind the branch that has run, if neither a key nor a store of the
command itself has changed the line: the loops of `monitor` and `watch` end when they have
cleared it. -/
def lineBehind (fsMounted : Bool) (cmd : CString) : CString :=
  match dispatch fsMounted cmd with
  | some (.monitor, _) => .ofLiteral ""
  | some (.watch, _) => .ofLiteral ""
  | _ => cmd

/-- The test behind the chain, of the newline in front of the prompt. -/
def newlineTest (cmd : CString) : Bool :=
  cmd ≠ .ofLiteral "clear" && cmd ≠ .ofLiteral "monitor" && (cmd.after "watch ").isNone

/-- The newline is printed. The test reads `command_buffer` again. -/
def newlineBehind (fsMounted : Bool) (cmd : CString) : Bool :=
  newlineTest (lineBehind fsMounted cmd)

/-! ## The words -/

/-- A word and what it stands for, which may depend on whether RexFS is mounted. -/
structure Word where
  pattern : Pattern
  mountedBranch : Branch
  unmountedBranch : Branch
deriving DecidableEq

def Word.branch (w : Word) (fsMounted : Bool) : Branch :=
  if fsMounted then w.mountedBranch else w.unmountedBranch

def Word.test (fsMounted : Bool) (w : Word) : Test := ⟨w.pattern, false, w.branch fsMounted⟩

/-- The commands without an argument. -/
def plainWords : List (String × Branch) :=
  [("bootinfo", .dumpBootinfo), ("clear", .clearScreen), ("diskinfo", .dumpDiskinfo),
    ("fsinfo", .rexfsFsinfo), ("help", .help), ("meminfo", .dumpMeminfo), ("memmap", .memmap),
    ("mkfs", .rexfsMkfs), ("monitor", .monitor), ("mount", .rexfsMount),
    ("netinfo", .rtl8139DumpInfo), ("panic", .kernelPanic), ("pci", .pciDumpAll),
    ("pmm", .pmmDumpInfo), ("pwd", .rexfsPwd), ("sysinfo", .sysinfo), ("time", .time),
    ("trace", .trace), ("unmount", .rexfsUnmount), ("vgamode", .vgamode),
    ("vmminfo", .vmmDumpInfo)]

/-- The commands with an argument. -/
def argumentWords : List (String × Branch) :=
  [("cd ", .rexfsCd), ("daemon ", .daemon), ("dump ", .dump), ("exec ", .rexfsExec),
    ("inject ", .inject), ("kfree ", .kfree), ("kmalloc ", .kmalloc), ("link ", .link),
    ("mkdir ", .rexfsMkdir), ("mode ", .mode), ("peek ", .peek), ("ping ", .netPing),
    ("poke ", .poke), ("rm ", .rexfsRm), ("run ", .run), ("sector ", .sector),
    ("touch ", .rexfsTouch), ("udpsend ", .netUdpSend), ("watch ", .watch),
    ("writehex ", .rexfsWritehex)]

/-- Every word once. Three of them stand for two commands. -/
def words : List Word :=
  plainWords.map (fun e => ⟨⟨e.1, false⟩, e.2, e.2⟩) ++
    argumentWords.map (fun e => ⟨⟨e.1, true⟩, e.2, e.2⟩) ++
    [⟨⟨"ls", false⟩, .rexfsLs, .vfsList⟩, ⟨⟨"cat ", true⟩, .rexfsCat, .vfsCat⟩,
      ⟨⟨"write ", true⟩, .rexfsWrite, .rawWrite⟩]

/-- The word that fits, in a table with the words in some order. -/
def wordOf (table : List Word) (cmd : CString) : Option (Word × CString) :=
  select (fun w cmd => w.pattern.rest cmd) table cmd

/-! ## No line fits two words -/

/-- Some line may fit both. -/
def Pattern.overlaps (p q : Pattern) : Bool :=
  let a := (CString.ofLiteral p.word).chars
  let b := (CString.ofLiteral q.word).chars
  (p.starts || b.isPrefixOf a) && (q.starts || a.isPrefixOf b) &&
    (a.isPrefixOf b || b.isPrefixOf a)

theorem Pattern.prefix_of_rest {p : Pattern} {cmd rest : CString} (h : p.rest cmd = some rest) :
    (CString.ofLiteral p.word).chars <+: cmd.chars ∧
      (p.starts = false → cmd = CString.ofLiteral p.word) := by
  rw [Pattern.rest] at h
  cases hstarts : p.starts with
  | true =>
    rw [if_pos hstarts, CString.after] at h
    split at h
    · next hprefix => exact ⟨List.isPrefixOf_iff_prefix.mp hprefix, fun h => by cases h⟩
    · cases h
  | false =>
    rw [if_neg (by rw [hstarts]; decide)] at h
    split at h
    · next heq => exact ⟨heq ▸ List.prefix_rfl, fun _ => heq⟩
    · cases h

theorem Pattern.overlaps_of_rest {p q : Pattern} {cmd rest rest' : CString}
    (hp : p.rest cmd = some rest) (hq : q.rest cmd = some rest') : p.overlaps q = true := by
  obtain ⟨hp, hp'⟩ := Pattern.prefix_of_rest hp
  obtain ⟨hq, hq'⟩ := Pattern.prefix_of_rest hq
  have hboth := List.prefix_or_prefix_of_prefix hp hq
  simp only [Pattern.overlaps, Bool.and_eq_true, Bool.or_eq_true, List.isPrefixOf_iff_prefix]
  refine ⟨⟨?_, ?_⟩, hboth⟩
  · cases hstarts : p.starts with
    | true => exact Or.inl rfl
    | false => exact Or.inr (hp' hstarts ▸ hq)
  · cases hstarts : q.starts with
    | true => exact Or.inl rfl
    | false => exact Or.inr (hq' hstarts ▸ hp)

theorem words_apart :
    words.Pairwise fun v w => v.pattern.overlaps w.pattern = false := by
  decide +kernel

theorem words_clear : Clear (fun (w : Word) cmd => w.pattern.rest cmd) words :=
  clear_of_overlap (fun v w => v.pattern.overlaps w.pattern)
    (fun _ _ _ _ _ hv hw => Pattern.overlaps_of_rest hv hw) words_apart

/-! ## From the chain to the words -/

/-- The tests that can pass, without those that an earlier one covers. -/
def liveTests (fsMounted : Bool) : List Test :=
  prune (fun a b => a.pattern = b.pattern) (chain.filter fun t => !t.mounted || fsMounted)

/-- They are the words, in another order. -/
theorem liveTests_perm : ∀ fsMounted,
    (words.map fun w => (w.pattern, w.branch fsMounted)).Perm
      ((liveTests fsMounted).map fun t => (t.pattern, t.branch)) := by
  decide +kernel

/-- The chain takes a test that can pass. -/
theorem select_chain (fsMounted : Bool) (cmd : CString) :
    select (Test.rest fsMounted) chain cmd =
      select (fun t cmd => t.pattern.rest cmd) (liveTests fsMounted) cmd := by
  have hsilent : ∀ t, t ∈ chain → (!t.mounted || fsMounted) = false →
      t.rest fsMounted cmd = none := by
    intro t _ ht
    obtain ⟨hm, hfs⟩ := Bool.or_eq_false_iff.mp ht
    have hm' : t.mounted = true := by simpa using hm
    rw [Test.rest, if_pos (by rw [hm', hfs]; rfl)]
  have hguard : ∀ t, t ∈ chain.filter (fun t => !t.mounted || fsMounted) →
      t.rest fsMounted cmd = t.pattern.rest cmd := by
    intro t ht
    have hpass := (List.mem_filter.mp ht).2
    rw [Test.rest, if_neg]
    cases fsMounted with
    | true => simp
    | false => simpa using hpass
  have hcovers : ∀ a b : Test, ∀ cmd, decide (a.pattern = b.pattern) = true →
      a.pattern.rest cmd = none → b.pattern.rest cmd = none := by
    intro a b cmd hab ha
    rwa [← of_decide_eq_true hab]
  rw [liveTests, select_prune hcovers, ← select_filter_of_silent _ hsilent, select_congr hguard]

theorem dispatch_eq (fsMounted : Bool) (cmd : CString) :
    dispatch fsMounted cmd =
      (wordOf words cmd).map fun wr => (wr.1.branch fsMounted, wr.2) := by
  let fires := fun (e : Pattern × Branch) cmd => e.1.rest cmd
  have hclear : Clear fires (words.map fun w => (w.pattern, w.branch fsMounted)) :=
    clear_map words_clear
  have hperm := select_perm hclear (liveTests_perm fsMounted) cmd
  rw [select_map, select_map] at hperm
  have hbranch := congrArg (Option.map fun er => (er.1.2, er.2)) hperm
  rw [Option.map_map, Option.map_map] at hbranch
  rw [dispatch, select_chain]
  exact hbranch

/-- A branch runs when a word fits that stands for it. -/
theorem dispatch_eq_some_iff {fsMounted : Bool} {cmd : CString} {b : Branch} {rest : CString} :
    dispatch fsMounted cmd = some (b, rest) ↔
      ∃ w, w ∈ words ∧ w.branch fsMounted = b ∧ w.pattern.rest cmd = some rest := by
  rw [dispatch_eq, Option.map_eq_some_iff]
  constructor
  · rintro ⟨⟨w, rest'⟩, hw, heq⟩
    obtain ⟨hmem, hrest⟩ := (select_eq_some_iff words_clear).mp hw
    cases heq
    exact ⟨w, hmem, rfl, hrest⟩
  · rintro ⟨w, hmem, rfl, hrest⟩
    exact ⟨(w, rest), (select_eq_some_iff words_clear).mpr ⟨hmem, hrest⟩, rfl⟩

/-- A word fits itself. -/
theorem Pattern.rest_word (p : Pattern) : ∃ rest, p.rest (.ofLiteral p.word) = some rest := by
  rw [Pattern.rest]
  cases p.starts with
  | true =>
    have hself := List.isPrefixOf_iff_prefix.mpr (List.prefix_refl (CString.ofLiteral p.word).chars)
    rw [if_pos rfl, CString.after, if_pos hself]
    exact ⟨_, rfl⟩
  | false =>
    rw [if_neg Bool.false_ne_true, if_pos rfl]
    exact ⟨_, rfl⟩

/-- The words of the test for the newline. -/
def quietPatterns : List Pattern := [⟨"clear", false⟩, ⟨"monitor", false⟩, ⟨"watch ", true⟩]

theorem newlineTest_eq (cmd : CString) :
    newlineTest cmd = quietPatterns.all fun p => (p.rest cmd).isNone := by
  have hexact : ∀ word : String,
      decide (cmd ≠ .ofLiteral word) = (Pattern.rest ⟨word, false⟩ cmd).isNone := by
    intro word
    rw [Pattern.rest, if_neg Bool.false_ne_true]
    split
    case isTrue heq => simpa using heq
    case isFalse hne => simpa using hne
  rw [newlineTest, hexact, hexact]
  simp only [quietPatterns, List.all_cons, List.all_nil, Bool.and_true, Bool.and_assoc]
  rfl

/-- The branches for these words. -/
theorem quiet_branch_iff : ∀ fsMounted, ∀ w, w ∈ words →
    (w.pattern ∈ quietPatterns ↔ w.branch fsMounted = .clearScreen ∨
      w.branch fsMounted = .monitor ∨ w.branch fsMounted = .watch) := by
  decide +kernel

theorem quiet_word : ∀ p, p ∈ quietPatterns → ∃ w, w ∈ words ∧ w.pattern = p := by
  decide +kernel

/-- The test is for the branches `clear`, `monitor` and `watch`. -/
theorem newlineTest_eq_false_iff (fsMounted : Bool) (cmd : CString) :
    newlineTest cmd = false ↔ ∃ b rest, dispatch fsMounted cmd = some (b, rest) ∧
      (b = .clearScreen ∨ b = .monitor ∨ b = .watch) := by
  rw [newlineTest_eq, List.all_eq_false]
  constructor
  · rintro ⟨p, hp, hsome⟩
    obtain ⟨rest, hrest⟩ := Option.ne_none_iff_exists'.mp (by simpa using hsome)
    obtain ⟨w, hw, rfl⟩ := quiet_word p hp
    exact ⟨_, rest, dispatch_eq_some_iff.mpr ⟨w, hw, rfl, hrest⟩,
      (quiet_branch_iff fsMounted w hw).mp hp⟩
  · rintro ⟨b, rest, hb, hquiet⟩
    obtain ⟨w, hw, rfl, hrest⟩ := dispatch_eq_some_iff.mp hb
    exact ⟨w.pattern, (quiet_branch_iff fsMounted w hw).mpr hquiet, by simp [hrest]⟩

/-- Behind `monitor` and `watch` it does not find their words any more. -/
theorem newlineBehind_eq_false_iff (fsMounted : Bool) (cmd : CString) :
    newlineBehind fsMounted cmd = false ↔
      ∃ rest, dispatch fsMounted cmd = some (.clearScreen, rest) := by
  have hempty : newlineTest (.ofLiteral "") = true := by decide
  rw [newlineBehind, lineBehind]
  split
  case h_1 rest hmonitor => simp [hempty, hmonitor]
  case h_2 rest hwatch => simp [hempty, hwatch]
  case h_3 hmonitor hwatch =>
    rw [newlineTest_eq_false_iff fsMounted]
    constructor
    · rintro ⟨b, rest, hb, rfl | rfl | rfl⟩
      · exact ⟨rest, hb⟩
      · exact absurd hb (hmonitor rest)
      · exact absurd hb (hwatch rest)
    · rintro ⟨rest, hb⟩
      exact ⟨_, rest, hb, .inl rfl⟩

/-! ## Results -/

/-- The chain is a table of words.

* On every line, mounted or not, a branch runs exactly if the line fits a word that stands for
  it, and the branch gets the rest of the line.
* No line fits two words, so that the order of the tests makes no difference.
* The newline in front of the prompt is left out exactly if the branch that ran is `clear`. -/
theorem dispatch_words (fsMounted : Bool) (cmd : CString) :
    (∀ b rest, dispatch fsMounted cmd = some (b, rest) ↔
      ∃ w, w ∈ words ∧ w.branch fsMounted = b ∧ w.pattern.rest cmd = some rest) ∧
    (∀ v w rest rest', v ∈ words → w ∈ words → v.pattern.rest cmd = some rest →
      w.pattern.rest cmd = some rest' → v = w) ∧
    (newlineBehind fsMounted cmd = false ↔
      ∃ rest, dispatch fsMounted cmd = some (.clearScreen, rest)) := by
  refine ⟨fun _ _ => dispatch_eq_some_iff, fun v w rest rest' hv hw hrest hrest' => ?_,
    newlineBehind_eq_false_iff fsMounted cmd⟩
  have htaken := (select_eq_some_iff words_clear).mpr ⟨hv, hrest⟩
  rw [(select_eq_some_iff words_clear).mpr ⟨hw, hrest'⟩] at htaken
  cases htaken
  rfl

theorem word_of_branch (b : Branch) (h : b ≠ .modeAgain) :
    ∃ w, w ∈ words ∧ ∃ fsMounted, w.branch fsMounted = b := by
  cases b with
  | modeAgain => exact absurd rfl h
  | _ => decide +kernel

theorem modeAgain_not_word : ∀ fsMounted, ∀ w, w ∈ words → w.branch fsMounted ≠ .modeAgain := by
  decide +kernel

/-- Every branch runs on some line, except for the second one for `mode `. -/
theorem branch_runs_iff (b : Branch) :
    (∃ fsMounted cmd rest, dispatch fsMounted cmd = some (b, rest)) ↔ b ≠ .modeAgain := by
  constructor
  · rintro ⟨fsMounted, cmd, rest, h⟩
    obtain ⟨w, hw, rfl, _⟩ := dispatch_eq_some_iff.mp h
    exact modeAgain_not_word fsMounted w hw
  · intro h
    obtain ⟨w, hw, fsMounted, hb⟩ := word_of_branch b h
    obtain ⟨rest, hrest⟩ := w.pattern.rest_word
    exact ⟨fsMounted, _, rest, dispatch_eq_some_iff.mpr ⟨w, hw, hb, hrest⟩⟩

/-! ## The storage commands -/

/-- The branches that are storage commands, and what they leave if they return. -/
def Branch.runStorage (env : Env) (sh : Shell) (rest : CString) : Branch → Option (Option Shell)
  | rexfsMkfs => some (some { sh with fs := sh.fs.rexfsMkfs env.capacity })
  | rexfsMount => some (some { sh with fs := sh.fs.rexfsMount })
  | rexfsUnmount => some (some { sh with fs := sh.fs.rexfsUnmount })
  | rexfsFsinfo => some (some { sh with fs := sh.fs.rexfsFsinfo })
  | rexfsMkdir => some (some { sh with fs := sh.fs.rexfsMkdir rest })
  | rexfsCd => some (some { sh with fs := sh.fs.rexfsCd rest })
  | rexfsPwd => some (some { sh with fs := sh.fs.rexfsPwd })
  | rexfsTouch => some (some { sh with fs := sh.fs.rexfsTouch rest })
  | rexfsRm => some (some { sh with fs := sh.fs.rexfsRm rest })
  | rexfsWritehex => some (some { sh with fs := (sh.fs.rexfsWritehex rest env.buffer).1 })
  | rexfsExec => some (some { sh with fs := (sh.fs.rexfsExec rest env.buffer env.old).1 })
  | link => some (some (linkCommand sh rest))
  | rexfsLs => some (some { sh with fs := sh.fs.rexfsLs })
  | vfsList => some (some (Newrex.vfsList sh))
  | rexfsCat => some (some { sh with fs := sh.fs.rexfsCat rest })
  | vfsCat => some (Newrex.vfsCat sh rest)
  | rexfsWrite => some (some { sh with fs := (sh.fs.rexfsWrite rest).1 })
  | rawWrite => some (Newrex.rawWrite sh rest)
  | sector => some (sectorDump sh rest)
  | _ => none

/-- The command of the storage model for a branch. -/
def Branch.command (rest : CString) : Branch → Option StorageCommand
  | rexfsMkfs => some .mkfs
  | rexfsMount => some .mount
  | rexfsUnmount => some .unmount
  | rexfsFsinfo => some .fsinfo
  | rexfsMkdir => some (.mkdir rest)
  | rexfsCd => some (.cd rest)
  | rexfsPwd => some .pwd
  | rexfsTouch => some (.touch rest)
  | rexfsRm => some (.rm rest)
  | rexfsWritehex => some (.writehex rest)
  | rexfsExec => some (.exec rest)
  | link => some (.link rest)
  | rexfsLs | vfsList => some .ls
  | rexfsCat | vfsCat => some (.cat rest)
  | rexfsWrite | rawWrite => some (.write rest)
  | sector => some (.sector rest)
  | _ => none

def Branch.isStorage (b : Branch) : Bool := (b.command (.ofLiteral "")).isSome

/-- The words of `parseCommand`, in its order. -/
def storageWords : List Word :=
  [⟨⟨"mkfs", false⟩, .rexfsMkfs, .rexfsMkfs⟩, ⟨⟨"mount", false⟩, .rexfsMount, .rexfsMount⟩,
    ⟨⟨"unmount", false⟩, .rexfsUnmount, .rexfsUnmount⟩,
    ⟨⟨"fsinfo", false⟩, .rexfsFsinfo, .rexfsFsinfo⟩,
    ⟨⟨"mkdir ", true⟩, .rexfsMkdir, .rexfsMkdir⟩, ⟨⟨"cd ", true⟩, .rexfsCd, .rexfsCd⟩,
    ⟨⟨"pwd", false⟩, .rexfsPwd, .rexfsPwd⟩, ⟨⟨"touch ", true⟩, .rexfsTouch, .rexfsTouch⟩,
    ⟨⟨"rm ", true⟩, .rexfsRm, .rexfsRm⟩,
    ⟨⟨"writehex ", true⟩, .rexfsWritehex, .rexfsWritehex⟩,
    ⟨⟨"exec ", true⟩, .rexfsExec, .rexfsExec⟩, ⟨⟨"link ", true⟩, .link, .link⟩,
    ⟨⟨"ls", false⟩, .rexfsLs, .vfsList⟩, ⟨⟨"cat ", true⟩, .rexfsCat, .vfsCat⟩,
    ⟨⟨"write ", true⟩, .rexfsWrite, .rawWrite⟩, ⟨⟨"sector ", true⟩, .sector, .sector⟩]

theorem storageWords_perm :
    (words.filter fun w => w.mountedBranch.isStorage).Perm storageWords := by
  decide +kernel

theorem Branch.isStorage_eq (b : Branch) (rest : CString) :
    b.isStorage = (b.command rest).isSome := by
  cases b <;> rfl

/-- The command of a table of words. -/
def commandOf (table : List Word) (cmd : CString) : Option StorageCommand :=
  (wordOf table cmd).bind fun wr => wr.1.mountedBranch.command wr.2

/-- One test of `parseCommand`. -/
theorem commandOf_cons (w : Word) (table : List Word) (cmd : CString)
    (hw : ∀ rest, (w.mountedBranch.command rest).isSome) :
    commandOf (w :: table) cmd =
      ((w.pattern.rest cmd).bind (w.mountedBranch.command ·) <|> commandOf table cmd) := by
  rw [commandOf, wordOf, select_cons]
  cases w.pattern.rest cmd with
  | none => rfl
  | some rest =>
    obtain ⟨c, hc⟩ := Option.isSome_iff_exists.mp (hw rest)
    show w.mountedBranch.command rest = (w.mountedBranch.command rest).orElse _
    rw [hc]
    rfl

theorem orElse_is {cmd : CString} {word : String} {b b' : Branch} {c : StorageCommand}
    {table : List Word} {others : Option StorageCommand} (hb : ∀ rest, b.command rest = some c)
    (h : others = commandOf table cmd) :
    (cmd.is word c <|> others) = commandOf (⟨⟨word, false⟩, b, b'⟩ :: table) cmd := by
  rw [commandOf_cons _ _ _ fun rest => by rw [hb]; rfl, h, CString.is, Pattern.rest,
    if_neg Bool.false_ne_true]
  split
  · rw [Option.bind_some, hb]
  · rfl

theorem orElse_after {cmd : CString} {word : String} {b b' : Branch}
    {c : CString → StorageCommand} {table : List Word} {others : Option StorageCommand}
    (hb : ∀ rest, b.command rest = some (c rest)) (h : others = commandOf table cmd) :
    ((cmd.after word).map c <|> others) = commandOf (⟨⟨word, true⟩, b, b'⟩ :: table) cmd := by
  rw [commandOf_cons _ _ _ fun rest => by rw [hb]; rfl, h, Pattern.rest, if_pos rfl, funext hb]
  cases cmd.after word with
  | none => rfl
  | some rest => rfl

theorem parseCommand_eq (cmd : CString) : parseCommand cmd = commandOf storageWords cmd := by
  have hlast : (cmd.after "sector ").map StorageCommand.sector =
      ((cmd.after "sector ").map StorageCommand.sector <|> none) := by
    cases cmd.after "sector " with
    | none => rfl
    | some rest => rfl
  rw [parseCommand, hlast]
  repeat first
    | refine orElse_is (fun _ => rfl) ?_
    | refine orElse_after (fun _ => rfl) ?_
  rfl

/-- The storage words are a part of the words, and the order does not matter. -/
theorem parseCommand_words (cmd : CString) : parseCommand cmd = commandOf words cmd := by
  have hclear : Clear (fun (w : Word) cmd => w.pattern.rest cmd)
      (words.filter fun w => w.mountedBranch.isStorage) := List.Pairwise.filter _ words_clear
  rw [parseCommand_eq, commandOf, wordOf, select_perm hclear storageWords_perm,
    select_filter words_clear, commandOf, wordOf]
  cases select (fun (w : Word) cmd => w.pattern.rest cmd) words cmd with
  | none => rfl
  | some wr =>
    rw [Option.filter_some]
    cases hstorage : wr.1.mountedBranch.isStorage with
    | true => rfl
    | false =>
      rw [Branch.isStorage_eq _ wr.2, Option.isSome_eq_false_iff, Option.isNone_iff_eq_none]
        at hstorage
      exact hstorage.symm

/-- A branch that is run only while RexFS is mounted, or only while it is not. -/
def Branch.needs (fsMounted : Bool) : Branch → Bool
  | rexfsLs | rexfsCat | rexfsWrite => fsMounted
  | vfsList | vfsCat | rawWrite => !fsMounted
  | _ => true

theorem branch_needs : ∀ fsMounted, ∀ w, w ∈ words →
    (w.branch fsMounted).needs fsMounted = true := by
  decide +kernel

/-- Both branches of a word are the same command. -/
theorem command_branch (rest : CString) : ∀ fsMounted, ∀ w, w ∈ words →
    (w.branch fsMounted).command rest = w.mountedBranch.command rest := by
  intro fsMounted w hw
  have hsame : (w.branch fsMounted = w.mountedBranch) ∨
      (w.branch fsMounted, w.mountedBranch) ∈
        [(Branch.vfsList, Branch.rexfsLs), (.vfsCat, .rexfsCat), (.rawWrite, .rexfsWrite)] := by
    revert fsMounted w
    decide +kernel
  rcases hsame with hsame | hsame
  · rw [hsame]
  · simp only [List.mem_cons, Prod.mk.injEq, List.not_mem_nil, or_false] at hsame
    rcases hsame with ⟨h, h'⟩ | ⟨h, h'⟩ | ⟨h, h'⟩
    · rw [h, h']; rfl
    · rw [h, h']; rfl
    · rw [h, h']; rfl

/-- The branch of a storage command does what the command does. -/
theorem runStorage_eq (env : Env) (sh : Shell) (rest : CString) (b : Branch)
    (h : b.needs sh.fs.fsMounted = true) :
    b.runStorage env sh rest = (b.command rest).map fun c => c.run env sh := by
  cases b with
  | rexfsLs | rexfsCat | rexfsWrite =>
    simp only [Branch.needs] at h
    simp only [Branch.runStorage, Branch.command, Option.map_some, StorageCommand.run, h, if_true]
  | vfsList | vfsCat | rawWrite =>
    simp only [Branch.needs, Bool.not_eq_true'] at h
    simp only [Branch.runStorage, Branch.command, Option.map_some, StorageCommand.run, h,
      Bool.false_eq_true, if_false]
  | _ => rfl

/-- On every line, in every state, the chain of `execute_command` runs a storage command
exactly if the model of the storage commands does, and with the same result. -/
theorem dispatch_storage (env : Env) (sh : Shell) (cmd : CString) :
    executeCommand env sh cmd =
      (dispatch sh.fs.fsMounted cmd).bind fun br =>
        br.1.runStorage env { sh with fs := sh.fs.print (.char 10) } br.2 := by
  rw [executeCommand, parseCommand_words, dispatch_eq, commandOf]
  cases hw : wordOf words cmd with
  | none => rfl
  | some wr =>
    obtain ⟨hmem, _⟩ := (select_eq_some_iff words_clear).mp hw
    let sh' : Shell := { sh with fs := sh.fs.print (.char 10) }
    have hneeds := branch_needs sh'.fs.fsMounted wr.1 hmem
    have hrun := runStorage_eq env sh' wr.2 _ hneeds
    rw [command_branch wr.2 _ _ hmem] at hrun
    exact hrun.symm

end Newrex
