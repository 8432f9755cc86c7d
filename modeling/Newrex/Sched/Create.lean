import Newrex.Sched.Switch

/-!
# Creating tasks

What `task_create` does when its calls of `kmalloc` succeed:

* `newTask_effect`: the record and the stacks of the new task, in three new blocks.
  `Built` says what the stacks hold, and `Built.firstRun` what the end of an interrupt
  gateway makes of them;
* `enqueue_effect`: the new task becomes the last one of the ring.
-/

namespace Newrex

open LittleEndian Ring

/-- A task made by `task_create`. -/
structure CreatedTask where
  new : Sched.NewTask
  entry : UInt32
  isUser : UInt32

namespace CreatedTask

/-- The blocks of the task, the one allocated last in front. -/
def blocks (c : CreatedTask) : List (Nat × Nat) :=
  (if c.isUser ≠ 0 then [(c.new.ustackPage, 4096)] else []) ++
    [(c.new.kstackPage, 4096), (c.new.addr, taskStructSize)]

/-- The calls of `kmalloc` succeeded. -/
def Allocated (c : CreatedTask) : Prop :=
  c.new.addr ≠ 0 ∧ c.new.kstackPage ≠ 0 ∧ (c.isUser ≠ 0 → c.new.ustackPage ≠ 0)

/-- The words that the kernel stack of the task holds. -/
def stackWords (c : CreatedTask) : List Nat :=
  Sched.initialFrame c.entry c.isUser (c.new.ustackPage + 4092)

end CreatedTask

/-- The stacks of the task are as `task_create` built them. -/
structure Built (mem : Nat → UInt8) (c : CreatedTask) : Prop where
  top : c.new.frame + 4 * c.stackWords.length = c.new.kstackPage + 4096
  room : c.new.kstackPage + 4096 < 2 ^ 32
  words : ∀ i, i < c.stackWords.length →
    load mem 4 (c.new.frame + 4 * i) = c.stackWords.reverse.getD i 0
  user : c.isUser ≠ 0 → load mem 4 (c.new.ustackPage + 4092) = c.new.ustackPage ∧
    ∀ i, i < Sched.exitTrampoline.length →
      mem (c.new.ustackPage + i) = Sched.exitTrampoline.getD i 0

/-- The end of an interrupt gateway on the stack of the task starts it: at its entry
point, with zero registers and interrupts enabled. A user task gets the user selectors
and a user stack on top of which the address of the exit trampoline lies. -/
def FirstRun (mem : Nat → UInt8) (c : CreatedTask) (esp : Nat) : Prop :=
  let regs := (Sched.isrEpilogue mem esp).1
  regs.eip = c.entry.toNat ∧
  regs.edi = 0 ∧ regs.esi = 0 ∧ regs.ebp = 0 ∧ regs.ebx = 0 ∧ regs.edx = 0 ∧ regs.ecx = 0 ∧
    regs.eax = 0 ∧
  regs.eflags = 0x202 ∧
  (c.isUser = 0 → regs.cs = 0x08 ∧ regs.userStack = none) ∧
  (c.isUser ≠ 0 → regs.cs = 0x1B ∧ ∃ uesp, regs.userStack = some (uesp, 0x23) ∧
    load mem 4 uesp = c.new.ustackPage ∧
    (List.range 7).map (fun i => mem (c.new.ustackPage + i)) = Sched.exitTrampoline)

namespace Built

variable {mem mem' : Nat → UInt8} {c : CreatedTask}

theorem length_user (h : c.isUser ≠ 0) : c.stackWords.length = 17 := by
  simp [CreatedTask.stackWords, Sched.initialFrame, h]

theorem length_kernel (h : c.isUser = 0) : c.stackWords.length = 15 := by
  simp [CreatedTask.stackWords, Sched.initialFrame, h]

theorem length_le (c : CreatedTask) : c.stackWords.length ≤ 17 := by
  by_cases h : c.isUser = 0
  · rw [length_kernel h]
    decide
  · rw [length_user h]

/-- The stacks depend only on the bytes of their pages. -/
theorem congr (h : Built mem c)
    (hk : ∀ x, c.new.kstackPage ≤ x → x < c.new.kstackPage + 4096 → mem' x = mem x)
    (hu : c.isUser ≠ 0 →
      ∀ x, c.new.ustackPage ≤ x → x < c.new.ustackPage + 4096 → mem' x = mem x) :
    Built mem' c where
  top := h.top
  room := h.room
  words := by
    intro i hi
    rw [← h.words i hi]
    have htop := h.top
    have hlen := length_le c
    exact load_congr fun j hj => hk _ (by omega) (by omega)
  user := by
    intro huser
    obtain ⟨htop, htramp⟩ := h.user huser
    refine ⟨Eq.trans ?_ htop, fun i hi => ?_⟩
    · exact load_congr fun j hj => hu huser _ (by omega) (by omega)
    · rw [← htramp i hi]
      have : i < 7 := hi
      exact hu huser _ (by omega) (by omega)

/-- Stacks that hold what was pushed. -/
theorem of_pushAll {m : Nat → UInt8} (hroom : c.new.kstackPage + 4096 < 2 ^ 32)
    (hframe : c.new.frame = c.new.kstackPage + 4096 - 4 * c.stackWords.length)
    (hlt : ∀ v, v ∈ c.stackWords → v < 2 ^ 32)
    (hk : ∀ x, c.new.kstackPage ≤ x → x < c.new.kstackPage + 4096 →
      mem x = (Stack.pushAll 4 (m, c.new.kstackPage + 4096) c.stackWords).1 x)
    (hu : c.isUser ≠ 0 → load mem 4 (c.new.ustackPage + 4092) = c.new.ustackPage ∧
      ∀ i, i < Sched.exitTrampoline.length →
        mem (c.new.ustackPage + i) = Sched.exitTrampoline.getD i 0) : Built mem c := by
  have hlen := length_le c
  refine ⟨by omega, hroom, fun i hi => ?_, hu⟩
  have hpushed : load (Stack.pushAll 4 (m, c.new.kstackPage + 4096) c.stackWords).1 4
      (c.new.frame + 4 * i) = c.stackWords.reverse.getD i 0 := by
    rw [hframe]
    exact Stack.load_pushAll (by omega) hroom hlt hi
  rw [← hpushed]
  exact load_congr fun j hj => hk _ (by omega) (by omega)

/-- The words that the end of a gateway pops, by their position above `esp`. -/
theorem isrEpilogue_eq {esp : Nat} (hesp : esp + 60 < 2 ^ 32) :
    (Sched.isrEpilogue mem esp).1 =
      { gs := load mem 4 (esp + 4 * 0), fs := load mem 4 (esp + 4 * 1)
        es := load mem 4 (esp + 4 * 2), ds := load mem 4 (esp + 4 * 3)
        edi := load mem 4 (esp + 4 * 4), esi := load mem 4 (esp + 4 * 5)
        ebp := load mem 4 (esp + 4 * 6), ebx := load mem 4 (esp + 4 * 8)
        edx := load mem 4 (esp + 4 * 9), ecx := load mem 4 (esp + 4 * 10)
        eax := load mem 4 (esp + 4 * 11), eip := load mem 4 (esp + 4 * 12)
        cs := load mem 4 (esp + 4 * 13), eflags := load mem 4 (esp + 4 * 14)
        userStack :=
          if load mem 4 (esp + 4 * 13) % 4 ≠ 0 then
            some (load mem 4 (esp + 4 * 15), load mem 4 (add32 (esp + 4 * 15) 4))
          else none } := by
  -- the stack pointer after `i` pops
  have hpop : ∀ i, i < 15 → add32 (esp + 4 * i) 4 = esp + 4 * (i + 1) := fun i hi =>
    add32_of_lt (by omega)
  have h0 : add32 esp 4 = esp + 4 * 1 := hpop 0 (by decide)
  simp (disch := decide) only [Sched.isrEpilogue, Sched.pop, bind, StateT.bind, pure, h0, hpop]
  split <;> rfl

/-- The frame of a new task, popped in the order of the gateway. -/
theorem firstRun (h : Built mem c) : FirstRun mem c c.new.frame := by
  have htop := h.top
  have hroom := h.room
  by_cases huser : c.isUser = 0
  · have hlen := length_kernel huser
    have hword : ∀ i, i < 15 → load mem 4 (c.new.frame + 4 * i) = c.stackWords.reverse.getD i 0 :=
      fun i hi => h.words i (by omega)
    simp only [FirstRun, isrEpilogue_eq (by omega : c.new.frame + 60 < 2 ^ 32)]
    simp (disch := decide) only [hword]
    simp [CreatedTask.stackWords, Sched.initialFrame, huser]
  · have hlen := length_user huser
    have hword : ∀ i, i < 17 → load mem 4 (c.new.frame + 4 * i) = c.stackWords.reverse.getD i 0 :=
      fun i hi => h.words i (by omega)
    obtain ⟨hutop, htramp⟩ := h.user huser
    have hbytes : (List.range 7).map (fun i => mem (c.new.ustackPage + i)) = Sched.exitTrampoline :=
      List.map_congr_left fun i hi => htramp i (List.mem_range.mp hi)
    have hlast : add32 (c.new.frame + 4 * 15) 4 = c.new.frame + 4 * 16 := add32_of_lt (by omega)
    simp only [FirstRun, isrEpilogue_eq (by omega : c.new.frame + 60 < 2 ^ 32), hlast]
    simp (disch := decide) only [hword]
    simp [CreatedTask.stackWords, Sched.initialFrame, huser, hutop, hbytes]

end Built

namespace Sched

/-! ## The record and the stacks -/

variable {kernelHeap : KernelHeap} {s s0 s1 : Sched} {live news : List (Nat × Nat)}
  {t p n : Nat}

/-- On the way from `s0` to `s` the blocks `news` were allocated and only their bytes
were written; the bytes of the allocations `live` from before are unchanged, and so
are the variables of the ring. -/
structure Grows (kernelHeap : KernelHeap) (s0 s : Sched) (live news : List (Nat × Nat)) : Prop where
  heap : ∃ bs, HeapInv kernelHeap ⟨s.heap, news ++ live⟩ bs
  bytes : ∀ p n, (p, n) ∈ live → ∀ x, p ≤ x → x < p + n → s.heap.mem x = s0.heap.mem x
  current : s.currentTask = s0.currentTask
  queue : s.taskQueue = s0.taskQueue
  active : s.schedulerActive = s0.schedulerActive

namespace Grows

theorem apart (h : Grows kernelHeap s0 s live news) {q m : Nat} (hp : (p, n) ∈ news ++ live)
    (hq : (q, m) ∈ news ++ live) (hne : q ≠ p) : p + n ≤ q ∨ q + m ≤ p := by
  obtain ⟨bs, hinv⟩ := h.heap
  exact hinv.payload_apart hp hq hne

theorem range (h : Grows kernelHeap s0 s live news) (hp : (p, n) ∈ news ++ live) :
    0 < p ∧ p + n < 2 ^ 32 := by
  obtain ⟨bs, hinv⟩ := h.heap
  exact hinv.live_range hp

/-- A new block is none of the old ones. -/
theorem fresh (h : Grows kernelHeap s0 s live news) {q m : Nat} (hp : (p, n) ∈ news)
    (hq : (q, m) ∈ live) : q ≠ p := by
  obtain ⟨bs, hinv⟩ := h.heap
  have hnodup := hinv.nodup
  simp only [List.map_append, List.nodup_append] at hnodup
  have hdisj := hnodup.2.2 p (List.mem_map_of_mem hp) q (List.mem_map_of_mem hq)
  exact fun heq => hdisj heq.symm

/-- The block allocated last is apart from the other new ones. -/
theorem head_apart (h : Grows kernelHeap s0 s live ((p, n) :: news)) {q m : Nat}
    (hq : (q, m) ∈ news) : p + n ≤ q ∨ q + m ≤ p := by
  refine h.apart (by simp) (by simp [hq]) ?_
  obtain ⟨bs, hinv⟩ := h.heap
  have hnodup := (List.nodup_cons.mp hinv.nodup).1
  rintro rfl
  exact hnodup (List.mem_map.mpr ⟨(q, m), List.mem_append_left live hq, rfl⟩)

theorem write (h : Grows kernelHeap s0 s live news) (hp : (p, n) ∈ news)
    (hmem : ∀ x, x < p ∨ p + n ≤ x → s1.heap.mem x = s.heap.mem x)
    (hhead : s1.heap.heapHead = s.heap.heapHead) (hcurrent : s1.currentTask = s.currentTask)
    (hqueue : s1.taskQueue = s.taskQueue) (hactive : s1.schedulerActive = s.schedulerActive) :
    Grows kernelHeap s0 s1 live news := by
  refine ⟨?_, ?_, hcurrent.trans h.current, hqueue.trans h.queue, hactive.trans h.active⟩
  · obtain ⟨bs, hinv⟩ := h.heap
    exact ⟨bs, hinv.write_live hhead fun x hx => hmem x (hx p n (List.mem_append_left live hp))⟩
  · intro q m hq x hlow hhigh
    have := h.apart (List.mem_append_left live hp) (List.mem_append_right news hq) (h.fresh hp hq)
    rw [hmem x (by omega)]
    exact h.bytes q m hq x hlow hhigh

theorem kmalloc (h : Grows kernelHeap s0 s live news) {size : UInt32} {heap : Heap}
    (heq : s.heap.kmalloc size = some (heap, p)) (hp : p ≠ 0) (hn : size.toNat = n) :
    Grows kernelHeap s0 (s.setHeap heap) live ((p, n) :: news) ∧
      ∀ q n, (q, n) ∈ news → ∀ x, q ≤ x → x < q + n → heap.mem x = s.heap.mem x := by
  obtain ⟨bs, hinv⟩ := h.heap
  obtain ⟨hnew, hmem⟩ := hinv.kmalloc_spec heq
  rw [hn] at hnew
  refine ⟨⟨hnew hp, ?_, h.current, h.queue, h.active⟩,
    fun q n hq => hmem q n (List.mem_append_left live hq)⟩
  intro q n hq x hlow hhigh
  exact (hmem q n (List.mem_append_right news hq) x hlow hhigh).trans (h.bytes q n hq x hlow hhigh)

theorem set (h : Grows kernelHeap s0 s live news) (ht : (t, taskStructSize) ∈ news)
    (f : TaskField) (v : Nat) : Grows kernelHeap s0 (s.set t f v) live news :=
  h.write ht (fun _ hx => set_outside hx) rfl rfl rfl rfl

end Grows

theorem newRecord_outside {state pageDirectory x : Nat} (h : x < t ∨ t + taskStructSize ≤ x) :
    (s.newRecord t state pageDirectory).heap.mem x = s.heap.mem x := by
  simp only [newRecord]
  rw [set_outside h, set_outside h]
  exact (set_outside h).trans (memset_outside h)

theorem newRecord_pid {state pageDirectory : Nat} (h : s.nextPid < 2 ^ 32) :
    (s.newRecord t state pageDirectory).get t .pid = s.nextPid := by
  simp only [newRecord]
  rw [get_set_field (by decide), get_set_field (by decide)]
  exact get_set_same h

theorem newRecord_state {state pageDirectory : Nat} (h : state < 2 ^ 32) :
    (s.newRecord t state pageDirectory).get t .state = state := by
  simp only [newRecord]
  rw [get_set_field (by decide), get_set_same h]

/-- The record is cleared, and nothing sets `next`. -/
theorem newRecord_next {state pageDirectory : Nat} :
    (s.newRecord t state pageDirectory).get t .next = 0 := by
  have hzero : ∀ i, i < 4 → memset s.heap.mem t 0 taskStructSize (t + 24 + i) = byteOf 0 i := by
    intro i hi
    have hin : t ≤ t + 24 + i ∧ t + 24 + i < t + taskStructSize := by
      unfold taskStructSize
      omega
    simp [memset, hin, byteOf]
  simp only [newRecord]
  rw [get_set_field (by decide), get_set_field (by decide)]
  exact (get_set_field (by decide)).trans (load_of_bytes hzero)

/-- `init_scheduler` makes the ring of PID 0 alone. -/
theorem initScheduler_effect {stackSpace : Nat}
    (hheap : ∃ bs, HeapInv kernelHeap ⟨s.heap, live⟩ bs) (hpid : s.nextPid = 0)
    (heq : s.initScheduler stackSpace = some s1) (hne : s1.currentTask ≠ 0) :
    (∃ bs, HeapInv kernelHeap ⟨s1.heap, (s1.currentTask, taskStructSize) :: live⟩ bs) ∧
      s1.taskQueue = s1.currentTask ∧ s1.schedulerActive = true ∧
      s1.get s1.currentTask .next = s1.currentTask ∧
      s1.get s1.currentTask .state = taskRunning ∧ s1.get s1.currentTask .pid = 0 := by
  obtain ⟨bs, hinv⟩ := hheap
  simp only [initScheduler, Option.bind_eq_bind, Option.bind_eq_some_iff] at heq
  obtain ⟨⟨heap, t⟩, hmalloc, heq⟩ := heq
  obtain ⟨hnew, _⟩ := hinv.kmalloc_spec hmalloc
  obtain rfl := Option.some.inj heq
  obtain ⟨bs', hinv'⟩ := hnew hne
  have ht : t < 2 ^ 32 := by
    have := (hinv'.live_range List.mem_cons_self).2
    omega
  refine ⟨⟨bs', hinv'.write_live rfl fun x hx => ?_⟩, rfl, rfl, ?_, ?_, ?_⟩
  · have hout : x < t ∨ t + taskStructSize ≤ x := hx t _ List.mem_cons_self
    exact (set_outside hout).trans ((set_outside hout).trans (newRecord_outside hout))
  · exact get_set_same ht
  · exact (get_set_field (by decide)).trans
      ((get_set_field (by decide)).trans (newRecord_state (by decide)))
  · refine (get_set_field (by decide)).trans ((get_set_field (by decide)).trans ?_)
    have hlt : s.nextPid < 2 ^ 32 := by
      rw [hpid]
      decide
    have hrecord : ((s.setHeap heap).setCurrentTask t).nextPid = s.nextPid := rfl
    rw [newRecord_pid (by rw [hrecord]; exact hlt), hrecord, hpid]

/-- The bytes of the user stack: the trampoline at the base of the page, and its
address in the topmost word. -/
def userStackBytes (m : Nat → UInt8) (page : Nat) : Nat → UInt8 :=
  store (storeBytes m page exitTrampoline) 4 (page + 4092) page

theorem fillUserStack_eq {page : Nat} (hrange : page + 4096 < 2 ^ 32) :
    s.fillUserStack t page = ((s.set t .ustack (page + 4096)).setMem
      (userStackBytes (s.set t .ustack (page + 4096)).heap.mem page), page + 4092) := by
  have htop : add32 page 4096 = page + 4096 := add32_of_lt hrange
  have hsub : page + 4096 - 4 = page + 4092 := by omega
  simp only [fillUserStack, htop]
  rw [Stack.push_eq (by omega) (by omega), hsub]
  rfl

theorem userStackBytes_outside {m : Nat → UInt8} {page x : Nat}
    (h : x < page ∨ page + 4096 ≤ x) : userStackBytes m page x = m x := by
  have hlen : exitTrampoline.length = 7 := rfl
  exact (store_outside (by omega)).trans (storeBytes_outside (by omega))

theorem userStackBytes_trampoline {m : Nat → UInt8} {page i : Nat}
    (hi : i < exitTrampoline.length) :
    userStackBytes m page (page + i) = exitTrampoline.getD i 0 := by
  have hlen : exitTrampoline.length = 7 := rfl
  exact (store_outside (by omega)).trans (storeBytes_inside hi)

/-- The user stack of a user task is a page from the heap. -/
theorem newUserStack_user {isUser : UInt32} {page top : Nat} (huser : isUser ≠ 0)
    (heq : s.newUserStack t isUser = some (s1, page, top)) :
    ∃ heap, s.heap.kmalloc 4096 = some (heap, page) ∧
      (s.setHeap heap).fillUserStack t page = (s1, top) := by
  rw [newUserStack, if_pos huser, Option.bind_eq_bind, Option.bind_eq_some_iff] at heq
  obtain ⟨⟨heap, q⟩, hmalloc, heq⟩ := heq
  obtain ⟨s2, top2, hfill⟩ : ∃ s2 top2, (s.setHeap heap).fillUserStack t q = (s2, top2) :=
    ⟨_, _, rfl⟩
  simp only [hfill, Option.some.injEq, Prod.mk.injEq] at heq
  obtain ⟨rfl, rfl, rfl⟩ := heq
  exact ⟨heap, hmalloc, hfill⟩

theorem newUserStack_kernel {isUser : UInt32} {page top : Nat} (hkernel : ¬ isUser ≠ 0)
    (heq : s.newUserStack t isUser = some (s1, page, top)) : s1 = s.set t .ustack 0 := by
  rw [newUserStack, if_neg hkernel] at heq
  exact (Prod.mk.inj (Option.some.inj heq)).1.symm

/-- The branch on `is_user`. -/
theorem newUserStack_effect (h : Grows kernelHeap s0 s live news)
    (ht : (t, taskStructSize) ∈ news) {isUser : UInt32} {page top : Nat}
    (heq : s.newUserStack t isUser = some (s1, page, top)) (hne : isUser ≠ 0 → page ≠ 0) :
    Grows kernelHeap s0 s1 live ((if isUser ≠ 0 then [(page, 4096)] else []) ++ news) ∧
      (∀ f, f ≠ .ustack → s1.get t f = s.get t f) ∧
      (isUser ≠ 0 → top = page + 4092 ∧ load s1.heap.mem 4 (page + 4092) = page ∧
        ∀ i, i < exitTrampoline.length → s1.heap.mem (page + i) = exitTrampoline.getD i 0) := by
  by_cases huser : isUser ≠ 0
  · obtain ⟨heap, hmalloc, hfill⟩ := newUserStack_user huser heq
    obtain ⟨hgrows, hbytes⟩ := h.kmalloc hmalloc (hne huser) (by decide : _ = 4096)
    have hpage : (page, 4096) ∈ (page, 4096) :: news := List.mem_cons_self
    have ht' : (t, taskStructSize) ∈ (page, 4096) :: news := List.mem_cons_of_mem _ ht
    have hrange := (hgrows.range (List.mem_append_left live hpage)).2
    have hapart := hgrows.head_apart ht
    rw [fillUserStack_eq hrange] at hfill
    obtain ⟨rfl, rfl⟩ := Prod.mk.inj hfill
    rw [if_pos huser]
    refine ⟨?_, fun f hf => ?_, fun _ => ⟨rfl, load_store_word (by omega),
      fun i hi => userStackBytes_trampoline hi⟩⟩
    · exact (hgrows.set ht' .ustack (page + 4096)).write hpage
        (fun x hx => userStackBytes_outside hx) rfl rfl rfl rfl
    calc Sched.get _ t f
        = ((s.setHeap heap).set t .ustack (page + 4096)).get t f :=
          get_congr (fun x hlow hhigh => userStackBytes_outside (by omega)) f
      _ = (s.setHeap heap).get t f := get_set_field hf
      _ = s.get t f := get_congr (hbytes t taskStructSize ht) f
  · obtain rfl := newUserStack_kernel huser heq
    rw [if_neg huser]
    exact ⟨h.set ht .ustack 0, fun f hf => get_set_field hf, fun h => absurd h huser⟩

theorem fillKernelStack_eq {page : Nat} {words : List Nat} (hrange : page + 4096 < 2 ^ 32)
    (hroom : 4 * words.length ≤ 4096) :
    s.fillKernelStack t page words =
      ((s.setMem (Stack.pushAll 4 (s.heap.mem, page + 4096) words).1).set t .kstack
        (page + 4096 - 4 * words.length), page + 4096 - 4 * words.length) := by
  have htop : add32 page 4096 = page + 4096 := add32_of_lt hrange
  have hpushed : (Stack.pushAll 4 (s.heap.mem, page + 4096) words).2 =
      page + 4096 - 4 * words.length := Stack.pushAll_top (by omega) (by omega)
  simp only [fillKernelStack, htop, hpushed]

theorem initialFrame_length_le (entry isUser : UInt32) (top : Nat) :
    (initialFrame entry isUser top).length ≤ 17 := by
  unfold initialFrame
  split
  · exact Nat.le_refl 17
  · exact (by decide : 15 ≤ 17)

/-- The words of a new task fit into 32 bits. -/
theorem initialFrame_lt {entry isUser : UInt32} {top : Nat} (htop : isUser ≠ 0 → top < 2 ^ 32) :
    ∀ v, v ∈ initialFrame entry isUser top → v < 2 ^ 32 := by
  have hentry : entry.toNat < 2 ^ 32 := entry.toNat_lt
  intro v hv
  by_cases huser : isUser = 0
  · simp only [initialFrame, huser, ne_eq, not_true_eq_false, if_false, List.mem_append,
      List.mem_cons, List.not_mem_nil, or_false] at hv
    omega
  · have := htop huser
    simp only [initialFrame, huser, ne_eq, not_false_eq_true, if_true, List.mem_append,
      List.mem_cons, List.not_mem_nil, or_false] at hv
    omega

/-- Without a user stack its top does not matter. -/
theorem initialFrame_kernel {entry isUser : UInt32} (h : isUser = 0) (top top' : Nat) :
    initialFrame entry isUser top = initialFrame entry isUser top' := by
  simp [initialFrame, h]

/-- The calls of `newTask` from `s` to `s1`, and the blocks that there are behind each. -/
structure TaskStages (kernelHeap : KernelHeap) (live : List (Nat × Nat)) (s s1 : Sched)
    (entry pageDir isUser : UInt32) (t kpage upage frame : Nat) (h1 h2 : Heap) (s4 : Sched)
    (top : Nat) : Prop where
  mallocRecord : s.heap.kmalloc 28 = some (h1, t)
  mallocPage : ((s.setHeap h1).newRecord t taskReady pageDir.toNat).heap.kmalloc 4096 =
    some (h2, kpage)
  userStack : ((((s.setHeap h1).newRecord t taskReady pageDir.toNat).setHeap h2).set t
    .kstackTopPage (add32 kpage 4096)).newUserStack t isUser = some (s4, upage, top)
  kernelStack : s4.fillKernelStack t kpage (initialFrame entry isUser top) = (s1, frame)
  start : Grows kernelHeap s s live []
  allocated : Grows kernelHeap s (s.setHeap h1) live [(t, taskStructSize)]
  filled : Grows kernelHeap s ((s.setHeap h1).newRecord t taskReady pageDir.toNat) live
    [(t, taskStructSize)]
  paged : Grows kernelHeap s (((s.setHeap h1).newRecord t taskReady pageDir.toNat).setHeap h2)
    live [(kpage, 4096), (t, taskStructSize)]
  ready : Grows kernelHeap s ((((s.setHeap h1).newRecord t taskReady pageDir.toNat).setHeap h2).set t
    .kstackTopPage (add32 kpage 4096)) live [(kpage, 4096), (t, taskStructSize)]

theorem newTask_stages {entry pageDir isUser : UInt32} {new : NewTask}
    (hheap : ∃ bs, HeapInv kernelHeap ⟨s.heap, live⟩ bs)
    (heq : s.newTask entry pageDir isUser = some (s1, new))
    (hok : CreatedTask.Allocated ⟨new, entry, isUser⟩) :
    ∃ h1 h2 s4 top, TaskStages kernelHeap live s s1 entry pageDir isUser new.addr new.kstackPage
      new.ustackPage new.frame h1 h2 s4 top := by
  simp only [newTask, Option.bind_eq_bind, Option.bind_eq_some_iff] at heq
  obtain ⟨⟨h1, t⟩, hmalloc1, ⟨h2, kpage⟩, hmalloc2, ⟨s4, upage, utop⟩, huser, heq⟩ := heq
  obtain ⟨s5, frame, hfill⟩ : ∃ s5 frame, s4.fillKernelStack t kpage
      (initialFrame entry isUser utop) = (s5, frame) := ⟨_, _, rfl⟩
  simp only [hfill, Option.some.injEq, Prod.mk.injEq] at heq
  obtain ⟨rfl, rfl⟩ := heq
  obtain ⟨ht, hk, _⟩ := hok
  dsimp only at ht hk
  have g0 : Grows kernelHeap s s live [] := ⟨hheap, fun _ _ _ _ _ _ => rfl, rfl, rfl, rfl⟩
  obtain ⟨g1, _⟩ := g0.kmalloc hmalloc1 ht (by decide : _ = taskStructSize)
  have g2 : Grows kernelHeap s ((s.setHeap h1).newRecord t taskReady pageDir.toNat) live
      [(t, taskStructSize)] :=
    g1.write (by simp) (fun x hx => newRecord_outside hx) rfl rfl rfl rfl
  obtain ⟨g3, _⟩ := g2.kmalloc hmalloc2 hk (by decide : _ = 4096)
  exact ⟨h1, h2, s4, utop, hmalloc1, hmalloc2, huser, hfill, g0, g1, g2, g3,
    g3.set (by simp) .kstackTopPage (add32 kpage 4096)⟩

/-- The record and the stacks of a new task. -/
theorem newTask_effect {entry pageDir isUser : UInt32} {new : NewTask}
    (hheap : ∃ bs, HeapInv kernelHeap ⟨s.heap, live⟩ bs)
    (heq : s.newTask entry pageDir isUser = some (s1, new))
    (hok : CreatedTask.Allocated ⟨new, entry, isUser⟩) :
    Grows kernelHeap s s1 live (CreatedTask.blocks ⟨new, entry, isUser⟩) ∧
      s1.get new.addr .state = taskReady ∧ s1.get new.addr .kstack = new.frame ∧
      Built s1.heap.mem ⟨new, entry, isUser⟩ ∧ s1.get new.addr .next = 0 := by
  obtain ⟨h1, h2, s4, utop, hs⟩ := newTask_stages hheap heq hok
  obtain ⟨_, hk, hu⟩ := hok
  obtain ⟨t, kpage, upage, frame⟩ := new
  dsimp only at hk hu hs ⊢
  -- the record, the page of the kernel stack and, for a user task, that of the user stack
  have hfill := hs.kernelStack
  have g3 := hs.paged
  obtain ⟨_, hbytes3⟩ := hs.filled.kmalloc hs.mallocPage hk (by decide : _ = 4096)
  have ht3 : (t, taskStructSize) ∈ [(kpage, 4096), (t, taskStructSize)] := by simp
  have hk3 : (kpage, 4096) ∈ [(kpage, 4096), (t, taskStructSize)] := by simp
  obtain ⟨g5, hfields5, hstack5⟩ := newUserStack_effect hs.ready ht3 hs.userStack hu
  have ht5 := List.mem_append_right (if isUser ≠ 0 then [(upage, 4096)] else []) ht3
  have hk5 := List.mem_append_right (if isUser ≠ 0 then [(upage, 4096)] else []) hk3
  have hkt : kpage + 4096 ≤ t ∨ t + taskStructSize ≤ kpage := g3.head_apart (by simp)
  have hrange := (g3.range (List.mem_append_left live hk3)).2
  -- the words pushed do not depend on the top of a user stack that there is not
  have hwords : initialFrame entry isUser utop =
      CreatedTask.stackWords ⟨⟨t, kpage, upage, frame⟩, entry, isUser⟩ := by
    by_cases huser' : isUser = 0
    · exact initialFrame_kernel huser' _ _
    · rw [CreatedTask.stackWords, (hstack5 huser').1]
  have hlen := Built.length_le ⟨⟨t, kpage, upage, frame⟩, entry, isUser⟩
  rw [hwords, fillKernelStack_eq hrange (by omega)] at hfill
  obtain ⟨hs5, hframe⟩ := Prod.mk.inj hfill
  have hpush : ∀ x, x < kpage ∨ kpage + 4096 ≤ x → (Stack.pushAll 4 (s4.heap.mem, kpage + 4096)
      (CreatedTask.stackWords ⟨⟨t, kpage, upage, frame⟩, entry, isUser⟩)).1 x = s4.heap.mem x :=
    fun x hx => Stack.pushAll_outside (by omega) (by omega) (by omega)
  have g6 : Grows kernelHeap s (s4.setMem (Stack.pushAll 4 (s4.heap.mem, kpage + 4096)
      (CreatedTask.stackWords ⟨⟨t, kpage, upage, frame⟩, entry, isUser⟩)).1) live _ :=
    g5.write hk5 hpush rfl rfl rfl rfl
  have hmem5 : ∀ x, x < kpage ∨ kpage + 4096 ≤ x → x < t ∨ t + taskStructSize ≤ x →
      s1.heap.mem x = s4.heap.mem x := by
    intro x hkx htx
    rw [← hs5, set_outside htx]
    exact hpush x hkx
  have hrecord : ∀ f, f ≠ .kstack → f ≠ .ustack → f ≠ .kstackTopPage → s1.get t f =
      ((s.setHeap h1).newRecord t taskReady pageDir.toNat).get t f := by
    intro f hkstack hustack htop
    calc s1.get t f
        = Sched.get (s4.setMem _) t f := by rw [← hs5, get_set_field hkstack]
      _ = s4.get t f := get_congr (fun x hlow hhigh => hpush x (by omega)) f
      _ = _ := hfields5 f hustack
      _ = _ := get_set_field htop
      _ = _ := get_congr (hbytes3 t taskStructSize (by simp)) f
  refine ⟨hs5 ▸ g6.set ht5 .kstack _, ?_, ?_, ?_, ?_⟩
  · exact (hrecord .state (by decide) (by decide) (by decide)).trans (newRecord_state (by decide))
  · show s1.get t .kstack = frame
    rw [← hs5, get_set_same (by omega), hframe]
  · -- the last store into the record overwrites nothing on the stacks
    refine Built.of_pushAll hrange hframe.symm ?_
      (fun x (hlow : kpage ≤ x) (hhigh : x < kpage + 4096) => by
        rw [← hs5, set_outside (by omega)]
        rfl) ?_
    · rw [← hwords]
      refine initialFrame_lt fun huser' => ?_
      have hup := (g5.range (by simp [huser'] : (upage, 4096) ∈ _)).2
      rw [(hstack5 huser').1]
      omega
    · intro huser'
      obtain ⟨_, hword, htramp⟩ := hstack5 huser'
      rw [if_pos huser'] at g5
      have hut : upage + 4096 ≤ t ∨ t + taskStructSize ≤ upage := g5.head_apart ht3
      have huk : upage + 4096 ≤ kpage ∨ kpage + 4096 ≤ upage := g5.head_apart hk3
      refine ⟨?_, fun i hi => ?_⟩
      · refine Eq.trans (load_congr fun j hj => ?_) hword
        exact hmem5 (upage + 4092 + j) (by omega) (by omega)
      · have hi' : i < 7 := hi
        exact (hmem5 (upage + i) (by omega) (by omega)).trans (htramp i hi)
  · exact (hrecord .next (by decide) (by decide) (by decide)).trans newRecord_next

/-! ## Memory outside of the heap -/

/-- Byte `x` is not one of `kernel_heap`. -/
def OutsideHeap (kernelHeap : KernelHeap) (x : Nat) : Prop :=
  x < kernelHeap.addr ∨ kernelHeap.addr + heapSize ≤ x

section OutsideHeap

variable {x : Nat}

theorem Grows.outside (h : Grows kernelHeap s0 s live news) (hp : (p, n) ∈ news ++ live)
    (hx : OutsideHeap kernelHeap x) : x < p ∨ p + n ≤ x := by
  obtain ⟨bs, hinv⟩ := h.heap
  have := hinv.live_inside hp
  unfold OutsideHeap at hx
  omega

theorem Grows.kmalloc_outside (h : Grows kernelHeap s0 s live news) {size : UInt32} {heap : Heap}
    (heq : s.heap.kmalloc size = some (heap, p)) (hx : OutsideHeap kernelHeap x) :
    heap.mem x = s.heap.mem x := by
  obtain ⟨bs, hinv⟩ := h.heap
  exact hinv.kmalloc_outside heq hx

theorem initScheduler_outside {stackSpace : Nat}
    (hheap : ∃ bs, HeapInv kernelHeap ⟨s.heap, live⟩ bs)
    (heq : s.initScheduler stackSpace = some s1) (hne : s1.currentTask ≠ 0)
    (hx : OutsideHeap kernelHeap x) : s1.heap.mem x = s.heap.mem x := by
  simp only [initScheduler, Option.bind_eq_bind, Option.bind_eq_some_iff] at heq
  obtain ⟨⟨heap, t⟩, hmalloc, heq⟩ := heq
  obtain rfl := Option.some.inj heq
  have g0 : Grows kernelHeap s s live [] := ⟨hheap, fun _ _ _ _ _ _ => rfl, rfl, rfl, rfl⟩
  obtain ⟨g1, _⟩ := g0.kmalloc hmalloc hne (by decide : _ = taskStructSize)
  have hout : x < t ∨ t + taskStructSize ≤ x := g1.outside List.mem_cons_self hx
  calc _ = _ := (set_outside hout).trans ((set_outside hout).trans (newRecord_outside hout))
    _ = s.heap.mem x := g0.kmalloc_outside hmalloc hx

theorem newUserStack_outside (h : Grows kernelHeap s0 s live news)
    (ht : (t, taskStructSize) ∈ news) {isUser : UInt32} {page top : Nat}
    (heq : s.newUserStack t isUser = some (s1, page, top)) (hne : isUser ≠ 0 → page ≠ 0)
    (hx : OutsideHeap kernelHeap x) : s1.heap.mem x = s.heap.mem x := by
  have hout := h.outside (List.mem_append_left live ht) hx
  by_cases huser : isUser ≠ 0
  · obtain ⟨heap, hmalloc, hfill⟩ := newUserStack_user huser heq
    obtain ⟨hgrows, _⟩ := h.kmalloc hmalloc (hne huser) (by decide : _ = 4096)
    have hpage : (page, 4096) ∈ (page, 4096) :: news ++ live := List.mem_cons_self
    rw [fillUserStack_eq (hgrows.range hpage).2] at hfill
    obtain ⟨rfl, rfl⟩ := Prod.mk.inj hfill
    calc _ = ((s.setHeap heap).set t .ustack (page + 4096)).heap.mem x :=
          userStackBytes_outside (hgrows.outside hpage hx)
      _ = heap.mem x := set_outside hout
      _ = s.heap.mem x := h.kmalloc_outside hmalloc hx
  · obtain rfl := newUserStack_kernel huser heq
    exact set_outside hout

/-- Making a task writes to the heap only. -/
theorem newTask_outside {entry pageDir isUser : UInt32} {new : NewTask}
    (hheap : ∃ bs, HeapInv kernelHeap ⟨s.heap, live⟩ bs)
    (heq : s.newTask entry pageDir isUser = some (s1, new))
    (hok : CreatedTask.Allocated ⟨new, entry, isUser⟩) (hx : OutsideHeap kernelHeap x) :
    s1.heap.mem x = s.heap.mem x := by
  obtain ⟨h1, h2, s4, utop, hs⟩ := newTask_stages hheap heq hok
  obtain ⟨_, _, hu⟩ := hok
  obtain ⟨t, kpage, upage, frame⟩ := new
  dsimp only at hu hs
  have hfill := hs.kernelStack
  have hout : x < t ∨ t + taskStructSize ≤ x := hs.allocated.outside List.mem_cons_self hx
  have hpage : (kpage, 4096) ∈ [(kpage, 4096), (t, taskStructSize)] ++ live := List.mem_cons_self
  have hrange := (hs.paged.range hpage).2
  have hlen := initialFrame_length_le entry isUser utop
  have hkout := hs.paged.outside hpage hx
  rw [fillKernelStack_eq hrange (by omega)] at hfill
  obtain ⟨rfl, -⟩ := Prod.mk.inj hfill
  calc _ = (Stack.pushAll 4 (s4.heap.mem, kpage + 4096) (initialFrame entry isUser utop)).1 x :=
        set_outside hout
    _ = s4.heap.mem x := Stack.pushAll_outside (by omega) (by omega) (by omega)
    _ = _ := newUserStack_outside hs.ready (by simp) hs.userStack hu hx
    _ = h2.mem x := set_outside hout
    _ = _ := hs.filled.kmalloc_outside hs.mallocPage hx
    _ = h1.mem x := newRecord_outside hout
    _ = s.heap.mem x := hs.start.kmalloc_outside hs.mallocRecord hx

end OutsideHeap

/-! ## The queue -/

variable {ts pre : List Nat} {c : Nat}

/-- The loop of `task_create` ends at the last task of the ring. The induction follows
the tasks in front of it. -/
theorem lastLoop_links {fuel : Nat}
    (hlinks : Links (fun t => s.get t .next) (pre ++ [c]) s.taskQueue)
    (hhead : s.taskQueue ∉ (pre ++ [c]).tail) (hfuel : pre.length < fuel) :
    s.lastLoop fuel ((pre ++ [c]).headD s.taskQueue) = some c := by
  induction pre generalizing fuel with
  | nil =>
    obtain ⟨fuel, rfl⟩ : ∃ k, fuel = k + 1 := ⟨fuel - 1, by simp at hfuel; omega⟩
    have hc : s.get c .next = s.taskQueue := hlinks.1
    rw [List.nil_append, List.headD_cons, lastLoop, if_neg (fun h => h hc)]
  | cons x pre ih =>
    obtain ⟨fuel, rfl⟩ : ∃ k, fuel = k + 1 := ⟨fuel - 1, by omega⟩
    have hx : s.get x .next = (pre ++ [c]).headD s.taskQueue := hlinks.1
    have hne : s.get x .next ≠ s.taskQueue := by
      rw [hx]
      intro heq
      refine hhead ?_
      show s.taskQueue ∈ pre ++ [c]
      cases pre with
      | nil => exact List.mem_singleton.mpr heq.symm
      | cons y pre => exact List.mem_cons.mpr (Or.inl heq.symm)
    rw [List.cons_append, List.headD_cons, lastLoop, if_pos hne, hx]
    refine ih hlinks.2 (fun hmem => hhead ?_) (by simp at hfuel; omega)
    exact List.mem_of_mem_tail hmem

/-- The step from `s` to `s'` links the task `t` in behind the tasks `ts`. -/
structure EnqueueEffect (s s' : Sched) (ts : List Nat) (t : Nat) : Prop where
  links : Links (fun u => s'.get u .next) (ts ++ [t]) s.taskQueue
  field : ∀ u, u ∈ ts ++ [t] → ∀ f, f ≠ .next → s'.get u f = s.get u f
  mem : ∀ x, OutsideRecords (ts ++ [t]) x → s'.heap.mem x = s.heap.mem x
  head : s'.heap.heapHead = s.heap.heapHead
  current : s'.currentTask = s.currentTask
  queue : s'.taskQueue = s.taskQueue
  active : s'.schedulerActive = s.schedulerActive

/-- The new task becomes the last one of the ring. -/
theorem enqueue_effect (hlinks : Links (fun t => s.get t .next) (pre ++ [c]) s.taskQueue)
    (hhead : (pre ++ [c]).head? = some s.taskQueue) (hnodup : (pre ++ [c] ++ [t]).Nodup)
    (hapart : RecordsApart (pre ++ [c] ++ [t])) (hpos : s.taskQueue ≠ 0)
    (hqueue : s.taskQueue < 2 ^ 32) (ht : t < 2 ^ 32) (hlen : pre.length < 2 ^ 32) :
    ∃ s', s.enqueue t = some s' ∧ EnqueueEffect s s' (pre ++ [c]) t := by
  have hc : c ∈ pre ++ [c] ++ [t] := by simp
  have htmem : t ∈ pre ++ [c] ++ [t] := by simp
  obtain ⟨hring, _, hfresh⟩ := List.nodup_append.mp hnodup
  -- the queue starts with its head, and the head is not met again
  have hstart : (pre ++ [c]).headD s.taskQueue = s.taskQueue := by
    rw [List.headD_eq_head?_getD, hhead]
    rfl
  have hnotin : s.taskQueue ∉ (pre ++ [c]).tail := by
    obtain ⟨rest, hrest⟩ := List.head?_eq_some_iff.mp hhead
    rw [hrest] at hring ⊢
    exact (List.nodup_cons.mp hring).1
  have hlast : s.lastLoop (2 ^ 32) s.taskQueue = some c := by
    have := lastLoop_links hlinks hnotin hlen
    rwa [hstart] at this
  have hget : ∀ u, u ∈ pre ++ [c] ++ [t] → ∀ f,
      ((s.set c .next t).set t .next s.taskQueue).get u f =
        if u = t ∧ f = .next then s.taskQueue
        else if u = c ∧ f = .next then t else s.get u f := by
    intro u hu f
    rw [get_set hapart htmem hu hqueue, get_set hapart hc hu ht]
  refine ⟨(s.set c .next t).set t .next s.taskQueue, ?_, ?_, ?_, ?_, rfl, rfl, rfl, rfl⟩
  · rw [enqueue, if_neg hpos, hlast]
    rfl
  · have hct : c ≠ t := hfresh c (by simp) t (by simp)
    refine hlinks.insertLast ?_ ?_ fun x hx => ?_
    · rw [hget c hc, if_neg (fun h => hct h.1), if_pos ⟨rfl, rfl⟩]
    · rw [hget t htmem, if_pos ⟨rfl, rfl⟩]
    · have hxt : x ≠ t := hfresh x (by simp [hx]) t (by simp)
      have hxc : x ≠ c := (List.nodup_append.mp hring).2.2 x hx c (by simp)
      rw [hget x (by simp [hx]), if_neg (fun h => hxt h.1), if_neg (fun h => hxc h.1)]
  · intro u hu f hf
    rw [hget u hu, if_neg (fun h => hf h.2), if_neg (fun h => hf h.2)]
  · intro x hx
    exact (set_outside (hx t htmem)).trans (set_outside (hx c hc))

end Sched

end Newrex
