import Newrex.Exec.Load
import Newrex.Lib.X86

/-!
# Paging

`vmm_init` of `mm/vmm.c` builds one page directory with one page table, and no other code of
the kernel builds or changes a table. `PTE_USER_SUPER` of `vmm.h` is set in no entry.

* `Mapped.walk_kernel`: the page walk at the level of the kernel is the identity below 4 MB, and
  faults from there on.
* `Mapped.walk_user`: every walk from user mode faults.
* `started_program_faults`: the entry point, the stack and the exit trampoline of every program
  that `rexfs_exec` starts are closed to the program.
-/

namespace Newrex

open LittleEndian X86

def ptePresent : Nat := 0x01
def pteReadWrite : Nat := 0x02

def identityMapPages : Nat := 1024

/-- The addresses of `boot_page_directory` and `boot_page_table`, as the linker and the
attribute `aligned(4096)` place them. -/
structure BootTables where
  directory : Nat
  table : Nat
  directory_aligned : directory % 4096 = 0
  table_aligned : table % 4096 = 0
  fits : directory + 4096 ≤ 2 ^ 32 ∧ table + 4096 ≤ 2 ^ 32
  apart : directory + 4096 ≤ table ∨ table + 4096 ≤ directory

/-- The memory and the control registers. -/
structure Paging where
  mem : Nat → UInt8
  cr0 : Nat
  cr3 : Nat

/-- The loop of `vmm_init` over the first `n` entries of the page table. -/
def fillTable (mem : Nat → UInt8) (table n : Nat) : Nat → UInt8 :=
  (List.range n).foldl
    (fun mem i => store mem 4 (table + 4 * i) (i * 4096 ||| ptePresent ||| pteReadWrite)) mem

/-- `vmm_init`; `none` is a kernel panic. -/
def Paging.vmmInit (p : Paging) (tables : BootTables) : Option Paging :=
  let pdPhys := tables.directory
  let ptPhys := tables.table
  if pdPhys &&& 0xFFF ≠ 0 ∨ ptPhys &&& 0xFFF ≠ 0 then none
  else
    let mem := memset p.mem pdPhys 0 4096
    let mem := memset mem ptPhys 0 4096
    let mem := fillTable mem ptPhys identityMapPages
    let mem := store mem 4 pdPhys (ptPhys ||| ptePresent ||| pteReadWrite)
    let cr3 := pdPhys
    let cr0 := p.cr0 ||| 0x80000000
    if cr3 ≠ pdPhys then none
    else if cr0 &&& 0x80000000 = 0 then none
    else if load mem 4 ptPhys &&& ptePresent = 0 ∨
        load mem 4 (ptPhys + 4 * (identityMapPages - 1)) &&& ptePresent = 0 then none
    else some ⟨mem, cr0, cr3⟩

/-! ## Entries -/

theorem or_flags {n : Nat} (h : n % 4096 = 0) : n ||| ptePresent ||| pteReadWrite = n + 3 := by
  obtain ⟨q, rfl⟩ := Nat.dvd_of_mod_eq_zero h
  have hadd := Nat.two_pow_add_eq_or_of_lt (i := 12) (b := 3) (by decide) q
  rw [Nat.or_assoc]
  exact hadd.symm

theorem fillTable_succ (mem : Nat → UInt8) (table n : Nat) :
    fillTable mem table (n + 1) =
      store (fillTable mem table n) 4 (table + 4 * n)
        (n * 4096 ||| ptePresent ||| pteReadWrite) := by
  rw [fillTable, List.range_succ, List.foldl_append]
  rfl

theorem fillTable_outside {mem : Nat → UInt8} {table n x : Nat}
    (h : x < table ∨ table + 4 * n ≤ x) : fillTable mem table n x = mem x := by
  induction n with
  | zero => rfl
  | succ n ih =>
    rw [fillTable_succ, store_outside (by omega)]
    exact ih (by omega)

/-- The entry of page `i` maps it to itself, by induction on the number of entries filled. -/
theorem load_fillTable {mem : Nat → UInt8} {table n i : Nat} (hn : n ≤ 2 ^ 20) (hi : i < n) :
    load (fillTable mem table n) 4 (table + 4 * i) = i * 4096 + 3 := by
  induction n with
  | zero => exact absurd hi (Nat.not_lt_zero _)
  | succ n ih =>
    rw [fillTable_succ, or_flags (Nat.mul_mod_left n 4096)]
    by_cases hlast : i = n
    · rw [hlast]
      exact load_store_word (by omega)
    · rw [load_store_disjoint (by omega)]
      exact ih (by omega) (by omega)

/-- The tables that `vmm_init` leaves in memory. -/
structure Mapped (tables : BootTables) (mem : Nat → UInt8) : Prop where
  first : load mem 4 tables.directory = tables.table + 3
  others : ∀ i, 0 < i → i < 1024 → load mem 4 (tables.directory + 4 * i) = 0
  pages : ∀ i, i < 1024 → load mem 4 (tables.table + 4 * i) = i * 4096 + 3

/-- Byte `x` belongs to one of the tables. -/
def BootTables.Covers (tables : BootTables) (x : Nat) : Prop :=
  (tables.directory ≤ x ∧ x < tables.directory + 4096) ∨
    (tables.table ≤ x ∧ x < tables.table + 4096)

instance (tables : BootTables) (x : Nat) : Decidable (tables.Covers x) :=
  inferInstanceAs (Decidable ((_ ∧ _) ∨ (_ ∧ _)))

theorem Mapped.congr {tables : BootTables} {mem mem' : Nat → UInt8} (h : Mapped tables mem)
    (heq : ∀ x, tables.Covers x → mem' x = mem x) : Mapped tables mem' := by
  refine ⟨?_, fun i h0 hi => ?_, fun i hi => ?_⟩
  · rw [← h.first]
    exact load_congr fun j hj => heq _ (Or.inl ⟨by omega, by omega⟩)
  · rw [← h.others i h0 hi]
    exact load_congr fun j hj => heq _ (Or.inl ⟨by omega, by omega⟩)
  · rw [← h.pages i hi]
    exact load_congr fun j hj => heq _ (Or.inr ⟨by omega, by omega⟩)

/-- The memory that `vmm_init` leaves. -/
def tablesMemory (mem : Nat → UInt8) (tables : BootTables) : Nat → UInt8 :=
  store (fillTable (memset (memset mem tables.directory 0 4096) tables.table 0 4096) tables.table
    identityMapPages) 4 tables.directory (tables.table ||| ptePresent ||| pteReadWrite)

theorem tablesMemory_mapped (mem : Nat → UInt8) (tables : BootTables) :
    Mapped tables (tablesMemory mem tables) := by
  have happart := tables.apart
  have hfits := tables.fits
  have hpages : identityMapPages = 1024 := rfl
  unfold tablesMemory
  rw [or_flags tables.table_aligned]
  refine ⟨load_store_word ?_, fun i h0 hi => ?_, fun i hi => ?_⟩
  · have := tables.table_aligned
    omega
  · -- the bytes of the directory behind its first entry are still those of `memset`
    rw [load_store_disjoint (by omega)]
    refine load_of_bytes (v := 0) fun j hj => ?_
    have hin : tables.directory ≤ tables.directory + 4 * i + j ∧
        tables.directory + 4 * i + j < tables.directory + 4096 := by omega
    rw [fillTable_outside (by omega), memset_outside (by omega), memset, if_pos hin]
    simp [byteOf]
  · rw [load_store_disjoint (by omega)]
    exact load_fillTable (by decide) hi

/-- `vmm_init` does not panic. -/
theorem vmmInit_eq (p : Paging) (tables : BootTables) :
    p.vmmInit tables =
      some ⟨tablesMemory p.mem tables, p.cr0 ||| 0x80000000, tables.directory⟩ := by
  have hmask : ∀ n, n % 4096 = 0 → n &&& 0xFFF = 0 := fun n hn =>
    (Nat.and_two_pow_sub_one_eq_mod n 12).trans hn
  have hcr0 : (p.cr0 ||| 0x80000000) &&& 0x80000000 ≠ 0 := by
    rw [Nat.and_or_distrib_right, Nat.and_self, ne_eq, Nat.or_eq_zero_iff]
    exact fun h => absurd h.2 (by decide)
  have hmapped := tablesMemory_mapped p.mem tables
  have hfirst := hmapped.pages 0 (by decide)
  have hlast := hmapped.pages 1023 (by decide)
  rw [Nat.mul_zero, Nat.add_zero] at hfirst
  unfold tablesMemory at hfirst hlast ⊢
  simp only [Paging.vmmInit, hmask _ tables.directory_aligned, hmask _ tables.table_aligned, ne_eq,
    not_true_eq_false, or_self, if_false, if_neg hcr0, hfirst]
  rw [if_neg]
  rintro (h | h)
  · exact absurd h (by decide)
  · rw [show identityMapPages - 1 = 1023 from rfl, hlast] at h
    exact absurd h (by decide)

/-! ## Page walks -/

section Walks

variable {tables : BootTables} {mem : Nat → UInt8} {a : Nat}

theorem frameOf_flags {n : Nat} (h : n % 4096 = 0) : frameOf (n + 3) = n := by
  unfold frameOf
  omega

theorem flags_bits {n : Nat} (h : n % 4096 = 0) :
    present (n + 3) = true ∧ userAccess (n + 3) = false := by
  simp only [present, userAccess, Nat.testBit_eq_decide_div_mod_eq, decide_eq_true_eq,
    decide_eq_false_iff_not]
  omega

theorem Mapped.directoryEntry_eq (h : Mapped tables mem) (ha : a < 2 ^ 32) :
    directoryEntry mem tables.directory a = if a < 2 ^ 22 then tables.table + 3 else 0 := by
  have hframe : frameOf tables.directory = tables.directory := by
    have := tables.directory_aligned
    unfold frameOf
    omega
  rw [directoryEntry, hframe]
  split
  · next hlow =>
    have hindex : a / 2 ^ 22 = 0 := Nat.div_eq_of_lt hlow
    rw [hindex]
    exact h.first
  · exact h.others _ (by omega) (by omega)

/-- No directory entry is open to user mode. -/
theorem Mapped.walk_user (h : Mapped tables mem) (ha : a < 2 ^ 32) :
    pageWalk mem tables.directory true a = none := by
  refine pageWalk_user_none ?_
  rw [h.directoryEntry_eq ha]
  split
  · exact (flags_bits tables.table_aligned).2
  · rfl

/-- In kernel mode the first 4 MB are mapped to themselves, and nothing else is. -/
theorem Mapped.walk_kernel (h : Mapped tables mem) (ha : a < 2 ^ 32) :
    pageWalk mem tables.directory false a = if a < 2 ^ 22 then some a else none := by
  have hdir := h.directoryEntry_eq ha
  split
  · next hlow =>
    rw [if_pos hlow] at hdir
    have hindex : a / 2 ^ 12 % 1024 = a / 2 ^ 12 := Nat.mod_eq_of_lt (by omega)
    have htable : tableEntry mem tables.directory a = a / 2 ^ 12 * 4096 + 3 := by
      rw [tableEntry, hdir, frameOf_flags tables.table_aligned, hindex]
      exact h.pages _ (by omega)
    have hpage : a / 2 ^ 12 * 4096 % 4096 = 0 := Nat.mul_mod_left _ _
    simp only [pageWalk, hdir, htable, admits, (flags_bits tables.table_aligned).1,
      (flags_bits hpage).1, frameOf_flags hpage, Bool.not_false, Bool.true_or, Bool.and_true,
      if_true]
    congr 1
    omega
  · next hhigh =>
    rw [if_neg hhigh] at hdir
    rw [pageWalk, hdir]
    rfl

end Walks

/-! ## Programs -/

/-- The program of the task can run: the entry point, the user stack and the exit trampoline at
its base are open to user mode. -/
def UserAccessible (mem : Nat → UInt8) (cr3 : Nat) (c : CreatedTask) : Prop :=
  (pageWalk mem cr3 true c.entry.toNat).isSome = true ∧
    (∀ i, i < 4096 → (pageWalk mem cr3 true (c.new.ustackPage + i)).isSome = true) ∧
    ∀ i, i < Sched.exitTrampoline.length →
      (pageWalk mem cr3 true (c.new.ustackPage + i)).isSome = true

/-- The tables are in place, the heap is elsewhere, and `rexfs_exec` has loaded the file. -/
structure PagedLoad (tables : BootTables) (p p' : Paging) (kernelHeap : KernelHeap) (T : Tasking)
    (k k1 : Kernel) (filename : CString) (image : Image) : Prop where
  init : p.vmmInit tables = some p'
  apart : ∀ x, tables.Covers x → Sched.OutsideHeap kernelHeap x
  reachable : T.Reachable kernelHeap
  sched : k.sched = T.sched
  installed : ∀ x, tables.Covers x → k.sched.heap.mem x = p'.mem x
  load : k.execLoad filename = some (k1, some image)

/-- Loading and starting write to the heap only, so that the tables stay as `vmm_init` left
them. -/
theorem mapped_started {tables : BootTables} {p p' : Paging} {kernelHeap : KernelHeap}
    {T : Tasking} {k k1 : Kernel} {filename : CString} {image : Image}
    (h : PagedLoad tables p p' kernelHeap T k k1 filename image) {stackSpace : Nat}
    (hmem : k1.StartMemory image stackSpace) {k2 : Kernel} {t : Nat}
    (hstart : k1.execStart image stackSpace = some (k2, some t)) :
    Mapped tables k2.sched.heap.mem := by
  have hinit := h.init
  rw [vmmInit_eq] at hinit
  have hinv := h.reachable.inv
  obtain ⟨task, k2', hstart', hiff, _⟩ := execLoad_start hinv h.sched h.load hmem
  obtain ⟨rfl, rfl⟩ := Prod.mk.inj (Option.some.inj (hstart'.symm.trans hstart))
  obtain ⟨hinv1, hsched1, _⟩ := execLoad_effect hinv h.sched h.load
  rw [← Tasking.withHeap_sched] at hsched1
  refine (tablesMemory_mapped p.mem tables).congr fun x hx => ?_
  have hout := h.apart x hx
  rw [execStart_outside hinv1 hsched1 (hiff.mp rfl) hmem hstart' hout,
    execLoad_outside hinv h.sched h.load hout, h.installed x hx, ← Option.some.inj hinit]

/-- No program can run. For the tables of `vmm_init`, the page walk in kernel mode maps every
address below 4 MB to itself and faults elsewhere. For every image that `rexfs_exec` accepts, on
every heap, it still does so when the task is in the ring, and then the entry point, every byte
of the user stack and with them the exit trampoline fault in user mode. -/
theorem started_program_faults {tables : BootTables} {p p' : Paging} {kernelHeap : KernelHeap}
    {T : Tasking} {k k1 : Kernel} {filename : CString} {image : Image}
    (h : PagedLoad tables p p' kernelHeap T k k1 filename image) {stackSpace : Nat}
    (hmem : k1.StartMemory image stackSpace) {k2 : Kernel} {t : Nat}
    (hstart : k1.execStart image stackSpace = some (k2, some t)) :
    (∀ a, a < 2 ^ 32 → pageWalk k2.sched.heap.mem p'.cr3 false a =
      if a < 4 * 1024 * 1024 then some a else none) ∧
    ∃ c : CreatedTask, c.new.addr = t ∧ c.isUser = 1 ∧
      c.entry.toNat = image.codeBuffer + k1.entryOffset image ∧
      FirstRun k2.sched.heap.mem c (k2.sched.get t .kstack) ∧
      pageWalk k2.sched.heap.mem p'.cr3 true c.entry.toNat = none ∧
      (∀ i, i < 4096 → pageWalk k2.sched.heap.mem p'.cr3 true (c.new.ustackPage + i) = none) ∧
      ¬ UserAccessible k2.sched.heap.mem p'.cr3 c := by
  have hmapped := mapped_started h hmem hstart
  obtain ⟨task, k2', hstart', _, hnew⟩ :=
    execLoad_start h.reachable.inv h.sched h.load hmem
  obtain ⟨rfl, rfl⟩ := Prod.mk.inj (Option.some.inj (hstart'.symm.trans hstart))
  obtain ⟨c, hc, huser, hentry, _, hrun, hstack⟩ := hnew t rfl
  have hinit := h.init
  rw [vmmInit_eq] at hinit
  have hcr3 : p'.cr3 = tables.directory := by rw [← Option.some.inj hinit]
  rw [hcr3]
  have hfault := hmapped.walk_user c.entry.toNat_lt
  refine ⟨fun a ha => hmapped.walk_kernel ha, c, hc, huser, hentry, hrun, hfault, ?_, ?_⟩
  · intro i hi
    exact hmapped.walk_user (by omega)
  · rintro ⟨hopen, _⟩
    rw [hfault] at hopen
    exact absurd hopen (by decide)

/-! ### A program at work -/

/-- Tables at 3 MB. -/
def sampleTables : BootTables := ⟨0x300000, 0x301000, by decide, by decide, by decide, by decide⟩

def samplePaging : Paging := ⟨tablesMemory (fun _ => 0) sampleTables, 0x80000011, 0x300000⟩

/-- The kernel of `sampleTasking` with the tables in memory. -/
def pagedTasking : Tasking :=
  .boot ⟨Heap.initHeap sampleHeap ⟨fun x => if sampleTables.Covers x then samplePaging.mem x else 0,
    0, 0, TraceRing.empty⟩, []⟩ 0 0x300000 []

def pagedKernel : Kernel := ⟨sampleKernel.fs, pagedTasking.sched⟩

theorem pagedKernel_loads : (pagedKernel.execLoad (.ofBuffer [98])).isSome = true := by
  decide +kernel

def pagedLoaded : Kernel := ((pagedKernel.execLoad (.ofBuffer [98])).get pagedKernel_loads).1

theorem pagedLoad_sample : PagedLoad sampleTables ⟨fun _ => 0, 0x11, 0⟩ samplePaging sampleHeap
    pagedTasking pagedKernel pagedLoaded (.ofBuffer [98]) ⟨0x10000C, 9⟩ where
  init := vmmInit_eq _ _
  apart := by
    rintro x (hx | hx) <;>
      simp only [Sched.OutsideHeap, sampleTables, sampleHeap, heapSize] at hx ⊢ <;> omega
  reachable := .init ⟨_, rfl⟩
  sched := rfl
  installed := by
    intro x hx
    have hout : x < sampleHeap.addr ∨ sampleHeap.addr + 12 ≤ x := by
      rcases hx with hx | hx <;> simp only [sampleTables, sampleHeap] at hx ⊢ <;> omega
    show store (store (store _ 4 sampleHeap.addr _) 4 (sampleHeap.addr + 4) _) 4
      (sampleHeap.addr + 8) _ x = _
    rw [store_outside (by omega), store_outside (by omega), store_outside (by omega)]
    exact if_pos hx
  load := by
    unfold pagedLoaded
    exact some_get_pair pagedKernel_loads (by decide +kernel)

theorem pagedLoaded_memory : pagedLoaded.StartMemory ⟨0x10000C, 9⟩ 0x5000 :=
  startMemory_of_any (by decide +kernel)

theorem pagedLoaded_starts :
    (pagedLoaded.execStart ⟨0x10000C, 9⟩ 0x5000).any (fun r => r.2 = some 0x100049) = true := by
  decide +kernel

/-- The program `ret` in the file `b`: its entry point is closed to it. -/
theorem started_program_faults_sample :
    ∃ (k2 : Kernel) (c : CreatedTask), pagedLoaded.execStart ⟨0x10000C, 9⟩ 0x5000 =
        some (k2, some 0x100049) ∧
      c.new.addr = 0x100049 ∧ pageWalk k2.sched.heap.mem 0x300000 true c.entry.toNat = none := by
  obtain ⟨⟨k2, task⟩, hstart, htask⟩ := (Option.any_eq_true _ _).mp pagedLoaded_starts
  obtain rfl : task = some 0x100049 := of_decide_eq_true htask
  obtain ⟨_, c, hc, _, _, _, hfault, _⟩ :=
    started_program_faults pagedLoad_sample pagedLoaded_memory hstart
  exact ⟨k2, c, hstart, hc, hfault⟩

/-- The same program contradicts what `rexfs_exec` needs. -/
theorem program_closed_to_user :
    ¬ ∀ (tables : BootTables) (p p' : Paging) (kernelHeap : KernelHeap) (T : Tasking)
      (k k1 k2 : Kernel) (filename : CString) (image : Image) (stackSpace t : Nat),
      PagedLoad tables p p' kernelHeap T k k1 filename image → k1.StartMemory image stackSpace →
      k1.execStart image stackSpace = some (k2, some t) →
      ∀ c : CreatedTask, c.new.addr = t → FirstRun k2.sched.heap.mem c (k2.sched.get t .kstack) →
        UserAccessible k2.sched.heap.mem p'.cr3 c := by
  intro hall
  obtain ⟨⟨k2, task⟩, hstart, htask⟩ := (Option.any_eq_true _ _).mp pagedLoaded_starts
  obtain rfl : task = some 0x100049 := of_decide_eq_true htask
  have hinv := pagedLoad_sample.reachable.inv
  obtain ⟨_, k2', hstart', _, hnew⟩ :=
    execLoad_start hinv pagedLoad_sample.sched pagedLoad_sample.load pagedLoaded_memory
  obtain ⟨rfl, rfl⟩ := Prod.mk.inj (Option.some.inj (hstart'.symm.trans hstart))
  obtain ⟨c, hc, _, _, _, hrun, _⟩ := hnew _ rfl
  have hopen := (hall _ _ _ _ _ _ _ _ _ _ _ _ pagedLoad_sample pagedLoaded_memory hstart c hc
    hrun).1
  have hfault : pageWalk k2'.sched.heap.mem samplePaging.cr3 true c.entry.toNat = none :=
    (mapped_started pagedLoad_sample pagedLoaded_memory hstart').walk_user c.entry.toNat_lt
  rw [hfault] at hopen
  exact absurd hopen (by decide)

end Newrex
