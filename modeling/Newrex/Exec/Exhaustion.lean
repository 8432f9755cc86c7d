import Newrex.Exec.Load

/-!
# Memory exhaustion in `exec`

`rexfs_exec` tests the pointer to its buffer. `init_scheduler` and `task_create` use what
`kmalloc` returns without a test: a record or a stack at address 0 is written like any other,
and the PID is consumed.

The heap survives this, because the stores go to the first page of the memory, where no heap
lies. `newTask_served` and `activeSched_served` follow the requests through the block list,
whether they are served or not.

* `exec_exhaustion_iff`: the call contains a failed allocation exactly when the heap serves all
  requests behind the one for the buffer, or not even that one.
* `exhausted_exec_adds_task`: a heap on which the kernel stack fails.
-/

namespace Newrex

open LittleEndian RexFS BlockList

/-! ## Requests that may fail -/

/-- What `kmalloc` returned for `n` bytes: an allocation, or 0. A page at address 0 lies in
front of every heap. -/
def Placed (live : List (Nat × Nat)) (p n : Nat) : Prop := (p, n) ∈ live ∨ p = 0 ∧ n ≤ 4096

section Placed

variable {kernelHeap : KernelHeap} {heap h' : Heap} {live : List (Nat × Nat)} {bs : List Block}
  {p q n : Nat}

theorem Placed.cons (h : Placed live p n) (q m : Nat) :
    Placed (if q = 0 then live else (q, m) :: live) p n := by
  cases h with
  | inl hmem =>
    left
    split
    · exact hmem
    · exact List.mem_cons_of_mem _ hmem
  | inr hzero => exact Or.inr hzero

theorem Placed.head (hn : n ≤ 4096) : Placed (if q = 0 then live else (q, n) :: live) q n := by
  by_cases hq : q = 0
  · exact Or.inr ⟨hq, hn⟩
  · rw [if_neg hq]
    exact Or.inl List.mem_cons_self

theorem KernelHeap.page_le (kernelHeap : KernelHeap) : 4096 ≤ kernelHeap.addr := by
  have haligned := kernelHeap.aligned
  have hpos := kernelHeap.pos
  omega

namespace HeapInv

theorem placed_range (h : HeapInv kernelHeap ⟨heap, live⟩ bs) (hp : Placed live p n) :
    p + n < 2 ^ 32 := by
  rcases hp with hmem | ⟨rfl, hn⟩
  · exact (h.live_range hmem).2
  · omega

/-- A store to what `kmalloc` returned, be it 0, changes no header. -/
theorem write_placed (h : HeapInv kernelHeap ⟨heap, live⟩ bs) (hp : Placed live p n)
    (hhead : h'.heapHead = heap.heapHead)
    (hmem : ∀ x, x < p ∨ p + n ≤ x → h'.mem x = heap.mem x) :
    HeapInv kernelHeap ⟨h', live⟩ bs := by
  refine ⟨hhead.trans h.head, ?_, h.tiles, h.coalesced, h.used, h.nodup⟩
  refine h.chain.frame_headers fun o b hat x hlow hhigh => hmem x ?_
  rcases hp with hlive | ⟨rfl, hn⟩
  · have hapart := h.payload_header hlive hat
    rw [blockMetaSize] at hapart
    omega
  · have hpage := kernelHeap.page_le
    omega

end HeapInv

end Placed

namespace Sched

variable {kernelHeap : KernelHeap} {s : Sched} {live : List (Nat × Nat)} {bs : List Block}

theorem set_placed {t : Nat} (h : HeapInv kernelHeap ⟨s.heap, live⟩ bs)
    (ht : Placed live t taskStructSize) (f : TaskField) (v : Nat) :
    HeapInv kernelHeap ⟨(s.set t f v).heap, live⟩ bs :=
  h.write_placed ht rfl fun _ hx => set_outside hx

theorem newRecord_placed {t : Nat} (state pageDirectory : Nat)
    (h : HeapInv kernelHeap ⟨s.heap, live⟩ bs)
    (ht : Placed live t taskStructSize) :
    HeapInv kernelHeap ⟨(s.newRecord t state pageDirectory).heap, live⟩ bs :=
  h.write_placed ht rfl fun _ hx => newRecord_outside hx

/-- `init_scheduler` on any heap. -/
theorem initScheduler_served (h : HeapInv kernelHeap ⟨s.heap, live⟩ bs) (stackSpace : Nat) :
    ∃ s' live', s.initScheduler stackSpace = some s' ∧
      HeapInv kernelHeap ⟨s'.heap, live'⟩ (serve blockMetaSize 4 28 bs) ∧
      (s'.currentTask = 0 ↔ allocate blockMetaSize 4 28 bs = none) ∧
      s'.nextPid = add32 s.nextPid 1 := by
  obtain ⟨heap, t, hmalloc, hzero, hinv⟩ := h.kmalloc_serve 28
  have ht : Placed (if t = 0 then live else (t, 28) :: live) t taskStructSize :=
    Placed.head (by decide)
  rw [initScheduler, hmalloc]
  refine ⟨_, if t = 0 then live else (t, 28) :: live, rfl, ?_, hzero, rfl⟩
  refine hinv.write_placed ht rfl fun x hx => ?_
  exact (set_outside hx).trans ((set_outside hx).trans (newRecord_outside hx))

/-- The user stack on any heap. -/
theorem newUserStack_served {t : Nat} {isUser : UInt32} (huser : isUser ≠ 0)
    (h : HeapInv kernelHeap ⟨s.heap, live⟩ bs) :
    ∃ s' page top, s.newUserStack t isUser = some (s', page, top) ∧
      (page = 0 ↔ allocate blockMetaSize 4 4096 bs = none) ∧ s'.nextPid = s.nextPid := by
  obtain ⟨heap, page, hmalloc, hzero, hinv⟩ := h.kmalloc_serve 4096
  have hpage : Placed (if page = 0 then live else (page, 4096) :: live) page 4096 :=
    Placed.head (by decide)
  have hfilled := fillUserStack_eq (s := s.setHeap heap) (t := t) (hinv.placed_range hpage)
  rw [newUserStack, if_pos huser, hmalloc]
  simp only [Option.bind_eq_bind, Option.bind_some, hfilled]
  exact ⟨_, page, _, rfl, hzero, rfl⟩

/-- The record and the stacks of a user task on any heap: the requests are served in the block
list, and the PID is consumed in any case. -/
theorem newTask_served (entry pageDir : UInt32) {isUser : UInt32} (huser : isUser ≠ 0)
    (h : HeapInv kernelHeap ⟨s.heap, live⟩ bs) :
    ∃ s' new, s.newTask entry pageDir isUser = some (s', new) ∧
      s'.nextPid = add32 s.nextPid 1 ∧
      (0 ∉ [new.addr, new.kstackPage, new.ustackPage] ↔
        servesAll blockMetaSize 4 [28, 4096, 4096] bs = true) := by
  obtain ⟨h1, t, hmalloc1, hzero1, hinv1⟩ := h.kmalloc_serve 28
  have ht1 : Placed (if t = 0 then live else (t, 28) :: live) t taskStructSize :=
    Placed.head (by decide)
  have hrecord := newRecord_placed (s := s.setHeap h1) taskReady pageDir.toNat hinv1 ht1
  obtain ⟨h2, kpage, hmalloc2, hzero2, hinv2⟩ := hrecord.kmalloc_serve 4096
  have hrange : kpage + 4096 < 2 ^ 32 := hinv2.placed_range (Placed.head (Nat.le_refl 4096))
  have hset := set_placed
    (s := ((s.setHeap h1).newRecord t taskReady pageDir.toNat).setHeap h2)
    hinv2 (ht1.cons kpage 4096) .kstackTopPage (add32 kpage 4096)
  obtain ⟨s4, upage, utop, hstack, hzero3, hpid⟩ :=
    newUserStack_served (t := t) huser hset
  have hlen := initialFrame_length_le entry isUser utop
  have hfilled := @fillKernelStack_eq s4 t kpage (initialFrame entry isUser utop) hrange (by omega)
  simp only [newTask, hmalloc1, Option.bind_eq_bind, Option.bind_some, hmalloc2, hstack, hfilled]
  refine ⟨_, _, rfl, hpid, ?_⟩
  simp only [List.mem_cons, List.not_mem_nil, or_false, not_or, servesAll, Bool.and_true,
    Bool.and_eq_true, Option.isSome_iff_ne_none, ne_eq, @eq_comm Nat 0, hzero1, hzero2, hzero3]
  rfl

theorem enqueue_nextPid {s' : Sched} {t : Nat} (h : s.enqueue t = some s') :
    s'.nextPid = s.nextPid := by
  unfold enqueue at h
  split at h
  · cases h
    rfl
  · obtain ⟨c, _, hset⟩ := Option.bind_eq_some_iff.mp h
    cases hset
    rfl

end Sched

theorem add32_one_ne (n : Nat) : add32 n 1 ≠ n ∧ add32 (add32 n 1) 1 ≠ n := by
  unfold add32
  omega

/-! ## The whole call -/

namespace Kernel

/-- `rexfs_exec` up to its waiting loop. -/
def rexfsExec (k : Kernel) (filename : CString) (stackSpace : Nat) :
    Option (Kernel × Option Nat) := do
  let (k, image) ← k.execLoad filename
  match image with
  | none => some (k, none)
  | some image => k.execStart image stackSpace

/-- What `kmalloc` returns to `rexfs_exec`, to `init_scheduler` if it is called, and to
`task_create`, in this order. The call ends when there is no buffer. -/
def execPointers (k : Kernel) (filename : CString) (stackSpace : Nat) : Option (List Nat) := do
  match ← k.execLoad filename with
  | (_, none) => some [0]
  | (k, some image) => do
    let active ← k.activeSched stackSpace
    let (_, new) ← active.newTask (k.entryAddr image) 0 1
    some (image.codeBuffer :: ((if k.sched.schedulerActive then [] else [active.currentTask]) ++
      [new.addr, new.kstackPage, new.ustackPage]))

/-- The sizes that `init_scheduler`, if it is called, and `task_create` ask for. -/
def startRequests (k : Kernel) : List Nat :=
  (if k.sched.schedulerActive then [] else [28]) ++ [28, 4096, 4096]

/-- The file in `slot` is a program: a header with the magic number and an entry point inside
the file. -/
structure NexFile (k : Kernel) (filename : CString) (slot : Slot) : Prop where
  loads : Loads k filename slot
  header : 8 ≤ (fileBytes k.fs.disk (k.fs.disk.inode slot)).1.length
  magic : (fileBytes k.fs.disk (k.fs.disk.inode slot)).1.take 4 = nexMagic
  entry : nexEntry (fileBytes k.fs.disk (k.fs.disk.inode slot)).1 <
    (k.fs.disk.inode slot).size.toNat

/-- The heap and the scheduler are those of `T`. Outside of the heap no byte is written, inside
no live allocation is, and the tasks with their ring are the same. -/
structure Unchanged (kernelHeap : KernelHeap) (T : Tasking) (k : Kernel) : Prop where
  outside : ∀ x, Sched.OutsideHeap kernelHeap x → k.sched.heap.mem x = T.sched.heap.mem x
  bytes : ∀ p n, (p, n) ∈ T.live → ∀ x, p ≤ x → x < p + n →
    k.sched.heap.mem x = T.sched.heap.mem x
  heap : ∃ bs, HeapInv kernelHeap ⟨T.sched.heap, T.live⟩ bs ∧
    HeapInv kernelHeap ⟨k.sched.heap, T.live⟩ bs
  current : k.sched.currentTask = T.sched.currentTask
  queue : k.sched.taskQueue = T.sched.taskQueue
  pid : k.sched.nextPid = T.sched.nextPid
  active : k.sched.schedulerActive = T.sched.schedulerActive
  stack : k.sched.tssEsp0 = T.sched.tssEsp0
  directory : k.sched.cr3 = T.sched.cr3

/-- The call on the state `T` deals with exhausted memory. When a `kmalloc` returned 0, it
returns without a task and has changed nothing. Otherwise the last three pointers are the
record and the stacks of the new task, in separate live blocks. -/
def ContainsExhaustion (kernelHeap : KernelHeap) (T : Tasking) (k : Kernel) (filename : CString)
    (stackSpace : Nat) : Prop :=
  ∃ ps, k.execPointers filename stackSpace = some ps ∧
    (0 ∈ ps → ∃ k2, k.rexfsExec filename stackSpace = some (k2, none) ∧
      k2.Unchanged kernelHeap T) ∧
    (0 ∉ ps → ∃ front task kstack ustack k2 live bs, ps = front ++ [task, kstack, ustack] ∧
      k.rexfsExec filename stackSpace = some (k2, some task) ∧
      HeapInv kernelHeap ⟨k2.sched.heap, live⟩ bs ∧
      (∀ b, b ∈ [(ustack, 4096), (kstack, 4096), (task, taskStructSize)] → b ∈ live) ∧
      Packing.Apart [(ustack, 4096), (kstack, 4096), (task, taskStructSize)])

/-- The free blocks `bs` serve every request of the call, or not even the one for the
buffer. -/
def ServesExec (k : Kernel) (slot : Slot) (bs : List Block) : Prop :=
  allocate blockMetaSize 4 (k.fs.disk.inode slot).size.toNat bs = none ∨
    servesAll blockMetaSize 4 k.startRequests
      (serve blockMetaSize 4 (k.fs.disk.inode slot).size.toNat bs) = true

instance (k : Kernel) (slot : Slot) (bs : List Block) : Decidable (k.ServesExec slot bs) :=
  inferInstanceAs (Decidable (_ ∨ _))

end Kernel

section Exhaustion

variable {kernelHeap : KernelHeap} {T : Tasking} {k k1 : Kernel} {filename : CString} {slot : Slot}
  {image : Image} {bs : List Block} {stackSpace : Nat}

/-- A program is accepted once it is in memory. -/
theorem Kernel.NexFile.accepts (h : k.NexFile filename slot) (heap : Heap) (codeBuffer : Nat) :
    ((k.setHeap heap).loadBlocks (k.fs.disk.inode slot) codeBuffer).Accepts
      ⟨codeBuffer, (k.fs.disk.inode slot).size⟩ := by
  obtain ⟨_, hheader, hmagic, hentry⟩ := h
  generalize hino : k.fs.disk.inode slot = ino at hheader hmagic hentry ⊢
  have hbyte : ∀ i, i < 8 → ((k.setHeap heap).loadBlocks ino codeBuffer).sched.heap.mem
      (codeBuffer + i) = (fileBytes k.fs.disk ino).1.getD i 0 := by
    intro i hi
    have hlen : i < (fileBytes k.fs.disk ino).1.length := by omega
    refine (loadBlocks_mem (k.setHeap heap) ino codeBuffer i).trans ?_
    show (fileBytes k.fs.disk ino).1.getD i _ = _
    rw [List.getD_eq_getElem _ _ hlen, List.getD_eq_getElem _ _ hlen]
  generalize (k.setHeap heap).loadBlocks ino codeBuffer = k1 at hbyte
  constructor
  · rw [← hmagic, Kernel.magic]
    refine List.ext_getElem (by simp; omega) fun i hi _ => ?_
    rw [List.length_map, List.length_range] at hi
    rw [List.getElem_map, List.getElem_range, hbyte i (by omega), List.getElem_take,
      List.getD_eq_getElem]
  · have hword : k1.entryOffset ⟨codeBuffer, ino.size⟩ = (k1.sched.heap.mem (codeBuffer + 6)).toNat
        + 256 * ((k1.sched.heap.mem (codeBuffer + 7)).toNat + 256 * 0) := rfl
    rw [hword, hbyte 6 (by decide), hbyte 7 (by decide), Nat.mul_zero, Nat.add_zero]
    exact hentry

/-- Whether a file is a program does not depend on the memory. -/
theorem Kernel.NexFile.withSched (h : k.NexFile filename slot) (sched : Sched) :
    Kernel.NexFile ⟨k.fs, sched⟩ filename slot :=
  ⟨⟨h.loads.mounted, h.loads.named, h.loads.file⟩, h.header, h.magic, h.entry⟩

theorem Kernel.NexFile.large (h : k.NexFile filename slot) :
    ¬ (k.fs.disk.inode slot).size < 8 := by
  have hlen := fileBytes_length_le k.fs.disk (k.fs.disk.inode slot)
  have hheader := h.header
  have h8 : (8 : UInt32).toNat = 8 := rfl
  rw [UInt32.lt_iff_toNat_lt, h8]
  omega

/-- A program with a buffer is in memory and accepted, and the requests continue behind its
buffer. -/
theorem Kernel.NexFile.load (hnex : k.NexFile filename slot) (hT : T.Inv kernelHeap)
    (hk : k.sched = T.sched) (hbs : HeapInv kernelHeap ⟨T.sched.heap, T.live⟩ bs)
    (hsome : allocate blockMetaSize 4 (k.fs.disk.inode slot).size.toNat bs ≠ none) :
    ∃ (k1 : Kernel) (image : Image) (T1 : Tasking),
      k.execLoad filename = some (k1, some image) ∧ image.codeBuffer ≠ 0 ∧
      k1.Accepts image ∧ T1.Inv kernelHeap ∧ k1.sched = T1.sched ∧
      HeapInv kernelHeap ⟨k1.sched.heap, T1.live⟩
        (serve blockMetaSize 4 (k.fs.disk.inode slot).size.toNat bs) ∧
      k1.startRequests = k.startRequests ∧ k1.sched.nextPid = T.sched.nextPid := by
  obtain ⟨heap, codeBuffer, hmalloc, hzero, hserved⟩ :=
    hbs.kmalloc_serve (k.fs.disk.inode slot).size
  have hne : codeBuffer ≠ 0 := fun h0 => hsome (hzero.mp h0)
  have hload := hnex.loads.execLoad_eq hnex.large (by rw [hk]; exact hmalloc) hne
  obtain ⟨hT1, hsched1, _⟩ := execLoad_effect hT hk hload
  rw [if_neg hne] at hserved
  refine ⟨_, _, _, hload, hne, hnex.accepts heap codeBuffer, hT1, ?_, ?_, rfl, ?_⟩
  · rw [Tasking.withHeap_sched]
    exact hsched1
  · rw [Tasking.withHeap_live]
    refine hserved.write_placed (Or.inl List.mem_cons_self) rfl fun x hx => storeBytes_outside ?_
    have hlen := fileBytes_length_le k.fs.disk (k.fs.disk.inode slot)
    show x < codeBuffer ∨ codeBuffer + (fileBytes k.fs.disk (k.fs.disk.inode slot)).1.length ≤ x
    omega
  · rw [hsched1]
    rfl

/-- Behind the buffer, the pointers tell whether the requests were served, and the PID is
consumed. -/
theorem activeSched_served {live : List (Nat × Nat)}
    (h : HeapInv kernelHeap ⟨k.sched.heap, live⟩ bs) (image : Image) (stackSpace : Nat) :
    ∃ active sched new, k.activeSched stackSpace = some active ∧
      active.newTask (k.entryAddr image) 0 1 = some (sched, new) ∧
      sched.nextPid ≠ k.sched.nextPid ∧
      (0 ∉ (if k.sched.schedulerActive then [] else [active.currentTask]) ++
          [new.addr, new.kstackPage, new.ustackPage] ↔
        servesAll blockMetaSize 4 k.startRequests bs = true) := by
  obtain ⟨hone, htwo⟩ := add32_one_ne k.sched.nextPid
  unfold Kernel.activeSched Kernel.startRequests
  cases hactive : k.sched.schedulerActive with
  | true =>
    obtain ⟨sched, new, hnew, hpid, hiff⟩ :=
      Sched.newTask_served (k.entryAddr image) 0 (by decide : (1 : UInt32) ≠ 0) h
    exact ⟨k.sched, sched, new, rfl, hnew, hpid ▸ hone, hiff⟩
  | false =>
    obtain ⟨active, live', hinit, hinv, hzero, hpid1⟩ := Sched.initScheduler_served h stackSpace
    obtain ⟨sched, new, hnew, hpid, hiff⟩ :=
      Sched.newTask_served (k.entryAddr image) 0 (by decide : (1 : UInt32) ≠ 0) hinv
    refine ⟨active, sched, new, hinit, hnew, ?_, ?_⟩
    · rw [hpid, hpid1]
      exact htwo
    · have hcons : servesAll blockMetaSize 4 (28 :: [28, 4096, 4096]) bs = true ↔
          allocate blockMetaSize 4 28 bs ≠ none ∧
            servesAll blockMetaSize 4 [28, 4096, 4096] (serve blockMetaSize 4 28 bs) = true := by
        rw [servesAll, Bool.and_eq_true, Option.isSome_iff_ne_none]
      show 0 ∉ active.currentTask :: [new.addr, new.kstackPage, new.ustackPage] ↔
        servesAll blockMetaSize 4 (28 :: [28, 4096, 4096]) bs = true
      rw [hcons, List.mem_cons, not_or, hiff, @eq_comm Nat 0, hzero]

/-- Whatever the call returns once it has a buffer, the PID is consumed. -/
theorem execStart_pid {k2 : Kernel} {task : Option Nat} {active sched : Sched}
    {new : Sched.NewTask} (haccepts : k.Accepts image)
    (hactive : k.activeSched stackSpace = some active)
    (hnew : active.newTask (k.entryAddr image) 0 1 = some (sched, new))
    (h : k.execStart image stackSpace = some (k2, task)) : k2.sched.nextPid = sched.nextPid := by
  have hpass : ¬ image.size.toNat ≤ k.entryOffset image := Nat.not_le.mpr haccepts.2
  have hactive' : (k.printStringColor "[Kernel] Executing program in Ring 3...\n"
      colorLightCyan).activeSched stackSpace = some active := hactive
  simp only [Kernel.execStart, haccepts.1, ne_eq, not_true_eq_false, if_false, if_neg hpass,
    hactive', Option.bind_eq_bind, Option.bind_some, Sched.taskCreate, hnew] at h
  obtain ⟨⟨sched2, t⟩, henqueue, heq⟩ := Option.bind_eq_some_iff.mp h
  obtain ⟨sched3, hqueue, heq'⟩ := Option.bind_eq_some_iff.mp henqueue
  cases heq'
  cases heq
  exact Sched.enqueue_nextPid hqueue

/-- Without a buffer nothing happens. -/
theorem containsExhaustion_unbuffered (hk : k.sched = T.sched)
    (hbs : HeapInv kernelHeap ⟨T.sched.heap, T.live⟩ bs) (hnex : k.NexFile filename slot)
    (hnone : allocate blockMetaSize 4 (k.fs.disk.inode slot).size.toNat bs = none)
    (stackSpace : Nat) : k.ContainsExhaustion kernelHeap T filename stackSpace := by
  have hmalloc : k.sched.heap.kmalloc (k.fs.disk.inode slot).size = some (k.sched.heap, 0) := by
    rw [hk]
    rcases hbs.kmalloc_cases (k.fs.disk.inode slot).size with ⟨_, heq⟩ | ⟨_, _, _, hsome, _⟩
    · exact heq
    · rw [hnone] at hsome
      cases hsome
  have hload : k.execLoad filename = some (k.printStringColor
      "Error: Out of memory loading executable.\n" colorLightRed, none) := by
    simp only [Kernel.execLoad, hnex.loads.mounted, hnex.loads.named, hnex.loads.file,
      Bool.not_true, Bool.false_eq_true, if_false, if_neg hnex.large, hmalloc,
      Option.bind_eq_bind, Option.bind_some, if_true]
    rfl
  refine ⟨[0], by rw [Kernel.execPointers, hload]; rfl, fun _ => ?_, fun h0 => ?_⟩
  · refine ⟨_, by rw [Kernel.rexfsExec, hload]; rfl, ?_⟩
    have hsched : (k.printStringColor "Error: Out of memory loading executable.\n"
        colorLightRed).sched = T.sched := hk
    constructor <;> simp only [hsched, implies_true]
    exact ⟨bs, hbs, hbs⟩
  · exact absurd List.mem_cons_self h0

/-- With a record for PID 0 there is a current task. -/
theorem activeSched_current (hT : T.Inv kernelHeap) (hk : k.sched = T.sched) {active : Sched}
    (hactive : k.activeSched stackSpace = some active)
    (hne : 0 ∉ if k.sched.schedulerActive then [] else [active.currentTask]) :
    active.currentTask ≠ 0 := by
  cases T with
  | boot hs tssEsp0 cr3 console =>
    have hinactive : k.sched.schedulerActive = false := by rw [hk]; rfl
    rw [hinactive] at hne
    exact fun h0 => hne (List.mem_singleton.mpr h0.symm)
  | running s =>
    have hring : RingInv kernelHeap s := hT
    have heq : k.activeSched stackSpace = some s.sched := by
      rw [Kernel.activeSched, hk]
      exact if_pos hring.active
    obtain rfl : s.sched = active := Option.some.inj (heq.symm.trans hactive)
    exact Nat.ne_of_gt (hring.range hring.current).1

/-- The task of a call whose requests were all served. -/
theorem separate_blocks (hT : T.Inv kernelHeap) (hk : k.sched = T.sched)
    (haccepts : k.Accepts image) {active sched : Sched} {new : Sched.NewTask}
    (hactive : k.activeSched stackSpace = some active)
    (hidle : active.currentTask ≠ 0)
    (hnew : active.newTask (k.entryAddr image) 0 1 = some (sched, new))
    (hne : 0 ∉ [new.addr, new.kstackPage, new.ustackPage]) :
    ∃ k2 live bs, k.execStart image stackSpace = some (k2, some new.addr) ∧
      HeapInv kernelHeap ⟨k2.sched.heap, live⟩ bs ∧
      (∀ b, b ∈ [(new.ustackPage, 4096), (new.kstackPage, 4096), (new.addr, taskStructSize)] →
        b ∈ live) ∧
      Packing.Apart [(new.ustackPage, 4096), (new.kstackPage, 4096),
        (new.addr, taskStructSize)] := by
  simp only [List.mem_cons, List.not_mem_nil, or_false, not_or, @eq_comm Nat 0] at hne
  have hok : CreatedTask.Allocated ⟨new, k.entryAddr image, 1⟩ := ⟨hne.1, hne.2.1, fun _ => hne.2.2⟩
  obtain ⟨s, hs, hring, hallowed, sched', new', hnew', hstart⟩ :=
    execStart_effect hT hk haccepts ⟨active, hactive, hidle, sched, new, hnew, hok⟩
  -- the scheduler that the task is created on is the one of the history
  have hactive' := hT.activeSched hk stackSpace
  rw [hactive, hs] at hactive'
  obtain rfl : active = s.sched := Option.some.inj hactive'
  obtain ⟨rfl, rfl⟩ := Prod.mk.inj (Option.some.inj (hnew.symm.trans hnew'))
  obtain ⟨hgrows, _⟩ := Sched.newTask_effect hring.heap hnew hok
  obtain ⟨bs, hheap⟩ := (hring.create hallowed).heap
  obtain ⟨bs1, hheap1⟩ := hgrows.heap
  obtain ⟨sched2, hcreate, _⟩ := hring.create_effect hnew hgrows
  refine ⟨_, _, bs, hstart, hheap, fun b hb => ?_, ?_⟩
  · simp only [SchedState.step, hnew, hcreate]
    exact List.mem_append_left _ hb
  · exact hheap1.live_separate.sublist (List.sublist_append_left _ _)

/-- Exhaustion in `exec`. In every reachable state of the heap and the scheduler, with the
blocks `bs` of the heap, a call of `rexfs_exec` on a program contains a failed allocation if
and only if `bs` serves each request that follows the one for the buffer, or not even that
one. -/
theorem exec_exhaustion_iff (hT : T.Reachable kernelHeap) (hk : k.sched = T.sched)
    (hbs : HeapInv kernelHeap ⟨T.sched.heap, T.live⟩ bs) (hnex : k.NexFile filename slot)
    (stackSpace : Nat) :
    k.ContainsExhaustion kernelHeap T filename stackSpace ↔ k.ServesExec slot bs := by
  by_cases hnone : allocate blockMetaSize 4 (k.fs.disk.inode slot).size.toNat bs = none
  · exact ⟨fun _ => Or.inl hnone, fun _ => containsExhaustion_unbuffered hk hbs hnex hnone _⟩
  obtain ⟨k1, image, T1, hload, hne, haccepts, hT1, hk1, hheap1, hrequests, hpid1⟩ :=
    hnex.load hT.inv hk hbs hnone
  obtain ⟨active, sched, new, hactive, hnew, hpid, hiff⟩ :=
    activeSched_served hheap1 image stackSpace
  have hcall : k.rexfsExec filename stackSpace = k1.execStart image stackSpace := by
    rw [Kernel.rexfsExec, hload]
    rfl
  have hpointers : k.execPointers filename stackSpace = some (image.codeBuffer ::
      ((if k1.sched.schedulerActive then [] else [active.currentTask]) ++
        [new.addr, new.kstackPage, new.ustackPage])) := by
    simp only [Kernel.execPointers, hload, Option.bind_eq_bind, Option.bind_some, hactive, hnew]
  rw [hrequests] at hiff
  rw [Kernel.ServesExec, or_iff_right hnone, ← hiff]
  constructor
  · rintro ⟨ps, hps, hfail, _⟩ hzero
    rw [hpointers] at hps
    cases hps
    -- the call with a failed request consumed a PID
    obtain ⟨k2, hstart, hsame⟩ := hfail (List.mem_cons_of_mem _ hzero)
    rw [hcall] at hstart
    refine hpid ?_
    rw [← execStart_pid haccepts hactive hnew hstart, hsame.pid, hpid1]
  · intro hserved
    refine ⟨_, hpointers, fun hzero => ?_, fun _ => ?_⟩
    · rcases List.mem_cons.mp hzero with heq | hmem
      · exact absurd heq.symm hne
      · exact absurd hmem hserved
    · have hidle := activeSched_current hT1 hk1 hactive fun hmem =>
        hserved (List.mem_append_left _ hmem)
      obtain ⟨k2, live, bs2, hstart, hheap2, hblocks, hapart⟩ := separate_blocks hT1 hk1 haccepts
        hactive hidle hnew fun hmem => hserved (List.mem_append_right _ hmem)
      exact ⟨_, _, _, _, k2, live, bs2, (List.cons_append ..).symm, hcall.trans hstart, hheap2,
        hblocks, hapart⟩

end Exhaustion

/-! ### A full heap -/

theorem sampleKernel_nexFile : sampleKernel.NexFile (.ofBuffer [98]) 1 :=
  ⟨⟨by decide +kernel, by decide, by decide +kernel⟩, by decide +kernel, by decide +kernel,
    by decide +kernel⟩

/-- An empty heap serves the program. -/
theorem exec_exhaustion_sample :
    sampleKernel.ContainsExhaustion sampleHeap sampleTasking (.ofBuffer [98]) 0x5000 :=
  (exec_exhaustion_iff sampleTasking_reachable rfl (HeapInv.init sampleHeap _)
    sampleKernel_nexFile 0x5000).mpr (by decide +kernel)

/-- The heap with an allocation of 1044000 bytes. -/
def fullTasking : Tasking :=
  .boot (HeapState.step ⟨sampleBoot.heap, []⟩ (.kmalloc 1044000)) 0 0 []

theorem fullTasking_reachable : fullTasking.Reachable sampleHeap := by
  have hinit : (heapRuns sampleHeap).Reachable ⟨sampleBoot.heap, []⟩ := .init ⟨_, rfl⟩
  exact hinit.step (a := HeapAction.kmalloc 1044000) trivial

/-- What is left has room for the kernel stack, but not for the user stack, which
`task_create` then builds at address 0. -/
theorem exhausted_exec_adds_task : ¬ ∀ (kernelHeap : KernelHeap) (T : Tasking) (k : Kernel)
    (filename : CString) (slot : Slot) (stackSpace : Nat), T.Reachable kernelHeap →
    k.sched = T.sched → k.NexFile filename slot →
    k.ContainsExhaustion kernelHeap T filename stackSpace := by
  intro hall
  obtain ⟨ps, hps, hfail, _⟩ := hall sampleHeap fullTasking ⟨sampleKernel.fs, fullTasking.sched⟩
    (.ofBuffer [98]) 1 0x5000 fullTasking_reachable rfl
    (sampleKernel_nexFile.withSched _)
  have hzero : (Kernel.execPointers ⟨sampleKernel.fs, fullTasking.sched⟩ (.ofBuffer [98])
      0x5000).any (fun ps => decide (0 ∈ ps)) = true := by decide +kernel
  have htask : (Kernel.rexfsExec ⟨sampleKernel.fs, fullTasking.sched⟩ (.ofBuffer [98])
      0x5000).all (·.2.isSome) = true := by decide +kernel
  rw [hps] at hzero
  obtain ⟨k2, hcall, _⟩ := hfail (of_decide_eq_true hzero)
  rw [hcall] at htask
  cases htask

end Newrex
