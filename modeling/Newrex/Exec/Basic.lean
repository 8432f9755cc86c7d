import Newrex.RexFS.Files
import Newrex.Sched.Runs

/-!
# Loading and starting programs

`rexfs_exec` together with the heap and the scheduler that it works on. The function is cut
where it waits for the program: `execLoad` reads the file into a heap buffer, `execStart`
tests the header and creates the task, and `execReturn` is what follows the waiting loop.
`RexFS.rexfsExec` is the same function for callers that care about the file system only.

`Tasking` is the history that goes with the scheduler: before `init_scheduler` the heap
allocations, afterwards a `SchedState`.

* `execLoad_effect`: the buffer is a new allocation that holds the bytes of the file, and
  nothing else changes.
* `execStart_effect`: a task with the entry point of the image is created, as one step of the
  scheduler.
-/

namespace Newrex

open LittleEndian RexFS

/-- The file system, and the scheduler with the heap. -/
structure Kernel where
  fs : RexFS
  sched : Sched

/-- A file in memory: `code_buffer` and `inode.size`. -/
structure Image where
  codeBuffer : Nat
  size : UInt32
deriving DecidableEq, Repr

/-- The magic number `NEX!`. -/
def nexMagic : List UInt8 := [78, 69, 88, 33]

namespace Kernel

def printStringColor (k : Kernel) (text : String) (color : UInt8) : Kernel :=
  { k with fs := k.fs.printStringColor text color }

def setHeap (k : Kernel) (heap : Heap) : Kernel := { k with sched := k.sched.setHeap heap }

/-- The loading loop, which is that of `rexfs_cat` with the bytes stored in the buffer. -/
def loadBlocks (k : Kernel) (ino : NrInode) (codeBuffer : Nat) : Kernel :=
  let (bytes, oob) := fileBytes k.fs.disk ino
  { fs := { k.fs with outOfBounds := k.fs.outOfBounds || oob }
    sched := k.sched.setMem (storeBytes k.sched.heap.mem codeBuffer bytes) }

/-- `rexfs_exec` up to the end of the loading loop; without an image it has returned. -/
def execLoad (k : Kernel) (filename : CString) : Option (Kernel × Option Image) :=
  if !k.fs.fsMounted then
    some (k.printStringColor "Error: Filesystem is not mounted.\n" colorLightRed, none)
  else if filename.chars = [] then
    some (k.printStringColor "Usage: exec <file>\n" colorLightRed, none)
  else
    match k.fs.disk.findInode (·.isEntryOf 1 k.fs.currentDirId filename.chars) with
    | none => some (k.printStringColor "Error: File not found.\n" colorLightRed, none)
    | some s =>
      let ino := k.fs.disk.inode s
      if ino.size < 8 then
        some (k.printStringColor "Error: File is too small to be an executable.\n" colorLightRed,
          none)
      else do
        let (heap, codeBuffer) ← k.sched.heap.kmalloc ino.size
        let k := k.setHeap heap
        if codeBuffer = 0 then
          some (k.printStringColor "Error: Out of memory loading executable.\n" colorLightRed, none)
        else some (k.loadBlocks ino codeBuffer, some ⟨codeBuffer, ino.size⟩)

/-- The fields of the `nex_header_t` at the start of the buffer. -/
def magic (k : Kernel) (image : Image) : List UInt8 :=
  (List.range 4).map fun i => k.sched.heap.mem (image.codeBuffer + i)
def entryOffset (k : Kernel) (image : Image) : Nat :=
  load k.sched.heap.mem 2 (image.codeBuffer + 6)

/-- `entry_addr`. -/
def entryAddr (k : Kernel) (image : Image) : UInt32 :=
  UInt32.ofNat (image.codeBuffer + k.entryOffset image)

/-- `init_scheduler`, unless the scheduler is active. -/
def activeSched (k : Kernel) (stackSpace : Nat) : Option Sched :=
  if k.sched.schedulerActive then some k.sched else k.sched.initScheduler stackSpace

/-- `kfree(code_buffer)`. -/
def freeBuffer (k : Kernel) (image : Image) : Option Kernel := do
  let heap ← k.sched.heap.kfree image.codeBuffer
  some (k.setHeap heap)

/-- `rexfs_exec` from the test of the header to its waiting loop: the task, if one was
created. -/
def execStart (k : Kernel) (image : Image) (stackSpace : Nat) : Option (Kernel × Option Nat) :=
  if k.magic image ≠ nexMagic then do
    let k := k.printStringColor "Error: Invalid executable signature (expected NEX!).\n"
      colorLightRed
    some (← k.freeBuffer image, none)
  else if image.size.toNat ≤ k.entryOffset image then do
    let k := k.printStringColor "Error: Executable entry point out of bounds.\n" colorLightRed
    some (← k.freeBuffer image, none)
  else do
    let entryAddr := k.entryAddr image
    let k := k.printStringColor "[Kernel] Executing program in Ring 3...\n" colorLightCyan
    let sched ← k.activeSched stackSpace
    let (sched, t) ← sched.taskCreate entryAddr 0 1
    some ({ k with sched }, some t)

/-- The rest of `rexfs_exec`, after the loop that waits for `TASK_SUSPENDED`. -/
def execReturn (k : Kernel) (image : Image) : Option Kernel :=
  (k.printStringColor "\n[Kernel] Program returned safely.\n" colorLightGreen).freeBuffer image

/-- The calls of `kmalloc` that `init_scheduler` and `task_create` make for the program
succeed. -/
def StartMemory (k : Kernel) (image : Image) (stackSpace : Nat) : Prop :=
  ∃ sched, k.activeSched stackSpace = some sched ∧ sched.currentTask ≠ 0 ∧
    ∃ sched' new, sched.newTask (k.entryAddr image) 0 1 = some (sched', new) ∧
      CreatedTask.Allocated ⟨new, k.entryAddr image, 1⟩

end Kernel

/-! ## History -/

/-- The scheduler and the heap with their history. -/
inductive Tasking
  /-- Before `init_scheduler`. -/
  | boot (hs : HeapState) (tssEsp0 cr3 : Nat) (console : List Print)
  /-- After it. -/
  | running (s : SchedState)

namespace Tasking

def sched : Tasking → Sched
  | boot hs tssEsp0 cr3 console => Sched.boot hs.heap tssEsp0 cr3 console
  | running s => s.sched

/-- The live heap allocations. -/
def live : Tasking → List (Nat × Nat)
  | boot hs _ _ _ => hs.live
  | running s => s.live

/-- The tasks of the ring. -/
def tasks : Tasking → List Nat
  | boot _ _ _ _ => []
  | running s => s.tasks

/-- A change of the heap and of the live allocations. -/
def withHeap (heap : Heap) (live : List (Nat × Nat)) : Tasking → Tasking
  | boot _ tssEsp0 cr3 console => boot ⟨heap, live⟩ tssEsp0 cr3 console
  | running s => running { s with sched := s.sched.setHeap heap, live }

/-- The states that the kernel can be in when a command starts. -/
def Reachable (kernelHeap : KernelHeap) : Tasking → Prop
  | boot hs _ _ _ => (heapRuns kernelHeap).Reachable hs
  | running s => (schedRuns kernelHeap).Reachable s

/-- The invariant of the heap, and that of the ring once there is one. -/
def Inv (kernelHeap : KernelHeap) : Tasking → Prop
  | boot hs _ _ _ => ∃ bs, HeapInv kernelHeap hs bs
  | running s => RingInv kernelHeap s

variable {kernelHeap : KernelHeap} {T : Tasking} {heap : Heap} {live : List (Nat × Nat)}

@[simp] theorem withHeap_sched (T : Tasking) (heap : Heap) (live : List (Nat × Nat)) :
    (T.withHeap heap live).sched = T.sched.setHeap heap := by
  cases T with
  | boot _ _ _ _ => rfl
  | running _ => rfl

@[simp] theorem withHeap_live (T : Tasking) (heap : Heap) (live : List (Nat × Nat)) :
    (T.withHeap heap live).live = live := by
  cases T with
  | boot _ _ _ _ => rfl
  | running _ => rfl

theorem Reachable.inv (h : T.Reachable kernelHeap) : T.Inv kernelHeap := by
  cases T with
  | boot hs _ _ _ => exact reachable_heapInv h
  | running s => exact (reachable_ringInv h).1

theorem Inv.heapInv (h : T.Inv kernelHeap) :
    ∃ bs, HeapInv kernelHeap ⟨T.sched.heap, T.live⟩ bs := by
  cases T with
  | boot hs _ _ _ => exact h
  | running s => exact RingInv.heap h

/-- The invariant is kept when allocations are added and the bytes of the older ones stay. -/
theorem Inv.grow (h : T.Inv kernelHeap) {news : List (Nat × Nat)}
    (hheap : ∃ bs, HeapInv kernelHeap ⟨heap, news ++ T.live⟩ bs)
    (hbytes : ∀ p n, (p, n) ∈ T.live → ∀ x, p ≤ x → x < p + n →
      heap.mem x = T.sched.heap.mem x) : (T.withHeap heap (news ++ T.live)).Inv kernelHeap := by
  cases T with
  | boot hs _ _ _ => exact hheap
  | running s =>
    have hring : RingInv kernelHeap s := h
    refine hring.frame hheap (fun b hb => List.mem_append_right _ (hring.owned b hb)) ?_ rfl rfl rfl
      rfl rfl rfl
    intro t ht x hlow hhigh
    exact hbytes t _ (hring.owned _ (RingInv.task_block s ht)) x hlow hhigh

/-- The history after `init_scheduler`, if it had not run before. -/
def activated (stackSpace : Nat) : Tasking → Option SchedState
  | boot hs tssEsp0 cr3 console => do
    let sched ← (Sched.boot hs.heap tssEsp0 cr3 console).initScheduler stackSpace
    some ⟨sched, (sched.currentTask, taskStructSize) :: hs.live, sched.currentTask, [], [], []⟩
  | running s => some s

theorem Inv.activated {stackSpace : Nat} {s : SchedState} (h : T.Inv kernelHeap)
    (heq : T.activated stackSpace = some s) (hne : s.sched.currentTask ≠ 0) :
    RingInv kernelHeap s := by
  cases T with
  | boot hs tssEsp0 cr3 console =>
    simp only [Tasking.activated, Option.bind_eq_bind, Option.bind_eq_some_iff] at heq
    obtain ⟨sched, hinit, heq⟩ := heq
    cases heq
    exact (RingInv.start h hinit hne).1
  | running s => cases heq; exact h

/-- `rexfs_exec` calls `init_scheduler` exactly when the history has no ring yet. -/
theorem Inv.activeSched {k : Kernel} (h : T.Inv kernelHeap) (hk : k.sched = T.sched)
    (stackSpace : Nat) :
    k.activeSched stackSpace = (T.activated stackSpace).map SchedState.sched := by
  rw [Kernel.activeSched, hk]
  cases T with
  | boot hs tssEsp0 cr3 console =>
    show (Sched.boot hs.heap tssEsp0 cr3 console).initScheduler stackSpace = _
    simp only [Tasking.activated, Option.bind_eq_bind]
    cases (Sched.boot hs.heap tssEsp0 cr3 console).initScheduler stackSpace with
    | none => rfl
    | some _ => rfl
  | running s =>
    have hactive : s.sched.schedulerActive = true := RingInv.active h
    show (if s.sched.schedulerActive = true then some s.sched else _) = some s.sched
    rw [if_pos hactive]

end Tasking

/-! ## Loading -/

section Loading

variable {kernelHeap : KernelHeap} {T : Tasking} {k k1 : Kernel} {filename : CString}
  {image : Image} {slot : Slot} {heap : Heap}

/-- The file that `execLoad` reads. -/
structure Loads (k : Kernel) (filename : CString) (slot : Slot) : Prop where
  mounted : k.fs.fsMounted = true
  named : filename.chars ≠ []
  file : k.fs.disk.findInode (·.isEntryOf 1 k.fs.currentDirId filename.chars) = some slot

/-- A file shorter than a header is refused with a message. -/
theorem Loads.execLoad_short (h : Loads k filename slot)
    (hshort : (k.fs.disk.inode slot).size < 8) :
    k.execLoad filename = some (k.printStringColor
      "Error: File is too small to be an executable.\n" colorLightRed, none) := by
  simp only [Kernel.execLoad, h.mounted, h.named, h.file, Bool.not_true, Bool.false_eq_true,
    if_false, if_pos hshort]

theorem Loads.execLoad_eq (h : Loads k filename slot) (hsize : ¬ (k.fs.disk.inode slot).size < 8)
    {codeBuffer : Nat}
    (hmalloc : k.sched.heap.kmalloc (k.fs.disk.inode slot).size = some (heap, codeBuffer))
    (hne : codeBuffer ≠ 0) :
    k.execLoad filename = some ((k.setHeap heap).loadBlocks (k.fs.disk.inode slot) codeBuffer,
      some ⟨codeBuffer, (k.fs.disk.inode slot).size⟩) := by
  simp only [Kernel.execLoad, h.mounted, h.named, h.file, Bool.not_true, Bool.false_eq_true,
    if_false, if_neg hsize, hmalloc, Option.bind_eq_bind, Option.bind_some, if_neg hne]

/-- What a load that succeeds went through. -/
theorem execLoad_some (h : k.execLoad filename = some (k1, some image)) :
    ∃ slot heap, Loads k filename slot ∧ image.size = (k.fs.disk.inode slot).size ∧
      k.sched.heap.kmalloc image.size = some (heap, image.codeBuffer) ∧ image.codeBuffer ≠ 0 ∧
      k1 = (k.setHeap heap).loadBlocks (k.fs.disk.inode slot) image.codeBuffer := by
  unfold Kernel.execLoad at h
  split at h
  · cases h
  · next hm =>
    split at h
    · cases h
    · next hname =>
      split at h
      · cases h
      · next slot hfile =>
        dsimp only at h
        split at h
        · cases h
        · simp only [Option.bind_eq_bind, Option.bind_eq_some_iff] at h
          obtain ⟨⟨heap, codeBuffer⟩, hmalloc, h⟩ := h
          dsimp only at h
          split at h
          · cases h
          · next hne =>
            simp only [Option.some.injEq, Prod.mk.injEq] at h
            obtain ⟨rfl, rfl⟩ := h
            exact ⟨slot, heap, ⟨by simpa using hm, hname, hfile⟩, rfl, hmalloc, hne, rfl⟩

/-- Loading a file allocates the buffer and writes to it only. -/
theorem execLoad_effect (hT : T.Inv kernelHeap) (hk : k.sched = T.sched)
    (h : k.execLoad filename = some (k1, some image)) :
    (T.withHeap k1.sched.heap ([(image.codeBuffer, image.size.toNat)] ++ T.live)).Inv kernelHeap ∧
      k1.sched = T.sched.setHeap k1.sched.heap ∧ k1.fs.disk = k.fs.disk := by
  obtain ⟨slot, heap, _, hsize, hmalloc, hne, rfl⟩ := execLoad_some h
  have hlen : (fileBytes k.fs.disk (k.fs.disk.inode slot)).1.length ≤ image.size.toNat := by
    rw [hsize]
    exact fileBytes_length_le _ _
  refine ⟨?_, by rw [← hk]; rfl, rfl⟩
  obtain ⟨bs, hinv⟩ := hT.heapInv
  rw [hk] at hmalloc
  obtain ⟨hnew, hold⟩ := hinv.kmalloc_spec hmalloc
  obtain ⟨bs', hinv'⟩ := hnew hne
  have hapart : ∀ p n, (p, n) ∈ T.live → p ≠ image.codeBuffer := by
    rintro p n hp rfl
    exact (List.nodup_cons.mp hinv'.nodup).1 (List.mem_map.mpr ⟨_, hp, rfl⟩)
  refine hT.grow ⟨bs', hinv'.write_live rfl fun x hx => ?_⟩ fun p n hp x hlow hhigh => ?_
  · have := hx image.codeBuffer _ List.mem_cons_self
    have hout : x < image.codeBuffer ∨ image.codeBuffer +
        (fileBytes k.fs.disk (k.fs.disk.inode slot)).1.length ≤ x := by omega
    exact storeBytes_outside hout
  · have := hinv'.payload_apart List.mem_cons_self (List.mem_cons_of_mem _ hp) (hapart p n hp)
    have hout : x < image.codeBuffer ∨ image.codeBuffer +
        (fileBytes k.fs.disk (k.fs.disk.inode slot)).1.length ≤ x := by omega
    rw [← hold p n hp x hlow hhigh]
    exact storeBytes_outside hout

/-- Loading a file writes to the heap only. -/
theorem execLoad_outside (hT : T.Inv kernelHeap) (hk : k.sched = T.sched)
    (h : k.execLoad filename = some (k1, some image)) {x : Nat}
    (hx : Sched.OutsideHeap kernelHeap x) : k1.sched.heap.mem x = k.sched.heap.mem x := by
  obtain ⟨hinv, _⟩ := execLoad_effect hT hk h
  obtain ⟨bs', hheap'⟩ := hinv.heapInv
  rw [Tasking.withHeap_live] at hheap'
  have hin := hheap'.live_inside List.mem_cons_self
  obtain ⟨slot, heap, _, hsize, hmalloc, _, rfl⟩ := execLoad_some h
  obtain ⟨bs, hheap⟩ := hT.heapInv
  have hlen := fileBytes_length_le k.fs.disk (k.fs.disk.inode slot)
  rw [← hsize] at hlen
  have hout : x < image.codeBuffer ∨ image.codeBuffer +
      (fileBytes k.fs.disk (k.fs.disk.inode slot)).1.length ≤ x := by
    unfold Sched.OutsideHeap at hx
    omega
  rw [hk] at hmalloc ⊢
  exact (storeBytes_outside hout).trans (hheap.kmalloc_outside hmalloc hx)

end Loading

/-! ## Starting -/

section Starting

variable {kernelHeap : KernelHeap} {T : Tasking} {k : Kernel} {image : Image} {stackSpace : Nat}

/-- The header that `execStart` accepts. -/
def Kernel.Accepts (k : Kernel) (image : Image) : Prop :=
  k.magic image = nexMagic ∧ k.entryOffset image < image.size.toNat

/-- An image that is refused gives its buffer back and creates no task. -/
theorem execStart_refused (h : ¬ k.Accepts image) {heap : Heap}
    (hfree : k.sched.heap.kfree image.codeBuffer = some heap) :
    ∃ text, k.execStart image stackSpace =
      some ((k.printStringColor text colorLightRed).setHeap heap, none) := by
  unfold Kernel.execStart
  split
  · refine ⟨"Error: Invalid executable signature (expected NEX!).\n", ?_⟩
    show Option.bind (Option.bind (k.sched.heap.kfree image.codeBuffer) _) _ = _
    rw [hfree]
    rfl
  · next hmagic =>
    rw [ne_eq, not_not] at hmagic
    rw [if_pos (Nat.le_of_not_lt fun hlt => h ⟨hmagic, hlt⟩)]
    refine ⟨"Error: Executable entry point out of bounds.\n", ?_⟩
    show Option.bind (Option.bind (k.sched.heap.kfree image.codeBuffer) _) _ = _
    rw [hfree]
    rfl

/-- An accepted image is started by one step of the scheduler. -/
theorem execStart_effect (hT : T.Inv kernelHeap) (hk : k.sched = T.sched) (h : k.Accepts image)
    (hmem : k.StartMemory image stackSpace) :
    ∃ s, T.activated stackSpace = some s ∧ RingInv kernelHeap s ∧
      s.Allowed kernelHeap (.create (k.entryAddr image) 0 1) ∧
      ∃ sched new, s.sched.newTask (k.entryAddr image) 0 1 = some (sched, new) ∧
        k.execStart image stackSpace =
          some (⟨k.fs.printStringColor "[Kernel] Executing program in Ring 3...\n" colorLightCyan,
            (s.step (.create (k.entryAddr image) 0 1)).sched⟩, some new.addr) := by
  obtain ⟨active, hactive, hne, sched, new, hnew, hok⟩ := hmem
  have hmap := hT.activeSched hk stackSpace
  rw [hactive] at hmap
  obtain ⟨s, hs, rfl⟩ := Option.map_eq_some_iff.mp hmap.symm
  have hring := hT.activated hs hne
  obtain ⟨hgrows, _⟩ := Sched.newTask_effect hring.heap hnew hok
  obtain ⟨sched2, hcreate, _⟩ := hring.create_effect hnew hgrows
  refine ⟨s, hs, hring, ⟨sched, new, hnew, hok⟩, sched, new, hnew, ?_⟩
  have hpass : ¬ image.size.toNat ≤ k.entryOffset image := Nat.not_le.mpr h.2
  have hactive' : (k.printStringColor "[Kernel] Executing program in Ring 3...\n"
      colorLightCyan).activeSched stackSpace = some s.sched := hactive
  simp only [Kernel.execStart, h.1, ne_eq, not_true_eq_false, if_false, if_neg hpass, hactive',
    Option.bind_eq_bind, Option.bind_some, hcreate, SchedState.step, hnew]
  rfl

/-- Starting a program writes to the heap only. -/
theorem execStart_outside (hT : T.Inv kernelHeap) (hk : k.sched = T.sched) (h : k.Accepts image)
    (hmem : k.StartMemory image stackSpace) {k2 : Kernel} {task : Option Nat}
    (hstart : k.execStart image stackSpace = some (k2, task)) {x : Nat}
    (hx : Sched.OutsideHeap kernelHeap x) : k2.sched.heap.mem x = k.sched.heap.mem x := by
  obtain ⟨s, hs, hring, ⟨sched', new', hnew', hok⟩, sched, new, hnew, heq⟩ :=
    execStart_effect hT hk h hmem
  obtain ⟨rfl, rfl⟩ := Prod.mk.inj (Option.some.inj (hnew.symm.trans hnew'))
  obtain ⟨hgrows, _⟩ := Sched.newTask_effect hring.heap hnew hok
  obtain ⟨sched2, hcreate, heff, _⟩ := hring.create_effect hnew hgrows
  rw [heq] at hstart
  obtain ⟨rfl, _⟩ := Prod.mk.inj (Option.some.inj hstart)
  simp only [SchedState.step, hnew, hcreate]
  -- the queue and the record are blocks of the heap, and so is the record of PID 0
  have hrecords : OutsideRecords (s.tasks ++ [new.addr]) x := fun t ht =>
    hgrows.outside (hring.record_live (c := ⟨new, k.entryAddr image, 1⟩) ht) hx
  rw [heff.mem x hrecords, Sched.newTask_outside hring.heap hnew hok hx, hk]
  cases T with
  | boot hs tssEsp0 cr3 console =>
    simp only [Tasking.activated, Option.bind_eq_bind, Option.bind_eq_some_iff] at hs
    obtain ⟨sched0, hinit, hs⟩ := hs
    cases hs
    refine Sched.initScheduler_outside (s := Sched.boot _ _ _ _) hT hinit ?_ hx
    have := (hring.range hring.current).1
    exact Nat.ne_of_gt this
  | running s => cases hs; rfl

end Starting

end Newrex
