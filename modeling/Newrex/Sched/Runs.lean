import Mathlib.Data.List.Perm.Subperm
import Newrex.Lib.Transition
import Newrex.Sched.Create

/-!
# Runs of the scheduler

The runs that start with `init_scheduler` on any heap: tasks are created, timer ticks
and system calls switch between them, and in between other kernel code and the tasks
use the heap and write memory. `RingInv` is the invariant; its parts are kept by

* `RingInv.switch`: a call of `task_switch`, from whichever state of the current task;
* `RingInv.suspend`: the first half of the exit system call;
* `RingInv.create`: `task_create`;
* `RingInv.frame`: everything that writes to no task record.

`run_scheduler_ring` is the result.
-/

namespace Newrex

open LittleEndian Ring

/-! ## States and actions -/

/-- The scheduler together with the history of the run: the live heap allocations, the
record of PID 0, the tasks that `task_create` made and those that exited, and the
calls of `task_switch` with the task that was current and its `esp`, latest first. -/
structure SchedState where
  sched : Sched
  live : List (Nat × Nat)
  idle : Nat
  created : List CreatedTask
  exited : List Nat
  switches : List (Nat × Nat)

namespace SchedState

def heapState (s : SchedState) : HeapState := ⟨s.sched.heap, s.live⟩

/-- The task records in the order of their creation. -/
def tasks (s : SchedState) : List Nat := s.idle :: s.created.map (·.new.addr)

/-- The heap blocks of the tasks. -/
def blocks (s : SchedState) : List (Nat × Nat) :=
  (s.idle, taskStructSize) :: s.created.flatMap CreatedTask.blocks

/-- The task has not run yet. -/
def Waiting (s : SchedState) (c : CreatedTask) : Prop :=
  c.new.addr ≠ s.sched.currentTask ∧ ∀ esp, (c.new.addr, esp) ∉ s.switches

/-- Byte `x` belongs to a task record or to the stacks of a task that has not run yet. -/
def Guarded (s : SchedState) (x : Nat) : Prop :=
  (∃ t, t ∈ s.tasks ∧ t ≤ x ∧ x < t + taskStructSize) ∨
    ∃ c, c ∈ s.created ∧ s.Waiting c ∧ ∃ p n, (p, n) ∈ c.blocks ∧ p ≤ x ∧ x < p + n

end SchedState

inductive SchedAction
  /-- `task_create`. -/
  | create (entry pageDir isUser : UInt32)
  /-- `task_switch` on a timer tick or on `int 0x20`. -/
  | tick (esp : UInt32)
  /-- `syscall_handler`. -/
  | syscall (esp : UInt32)
  /-- A heap operation or a write of other code. -/
  | other (action : HeapAction)

namespace SchedState

/-- One action. A call that does not return would leave the state as it is; there is
none but the printing of an endless string (`run_scheduler_ring`). -/
def step (s : SchedState) : SchedAction → SchedState
  | .create entry pageDir isUser =>
    match s.sched.newTask entry pageDir isUser, s.sched.taskCreate entry pageDir isUser with
    | some (_, new), some (sched, _) =>
      { s with
        sched
        live := CreatedTask.blocks ⟨new, entry, isUser⟩ ++ s.live
        created := s.created ++ [⟨new, entry, isUser⟩] }
    | _, _ => s
  | .tick esp =>
    match s.sched.taskSwitch esp.toNat with
    | some (sched, _) =>
      { s with sched, switches := (s.sched.currentTask, esp.toNat) :: s.switches }
    | none => s
  | .syscall esp =>
    match s.sched.syscallHandler esp.toNat with
    | some (sched, _) =>
      let num := s.sched.frameEax esp.toNat
      { s with
        sched
        exited := if num = 1 then s.sched.currentTask :: s.exited else s.exited
        switches :=
          if num = 1 ∨ num = 3 then (s.sched.currentTask, esp.toNat) :: s.switches
          else s.switches }
    | none => s
  | .other action =>
    let hs := s.heapState.step action
    { s with sched := s.sched.setHeap hs.heap, live := hs.live }

/-- The calls of `kmalloc` in `task_create` succeed, PID 0 does not exit, and other code
keeps to its own memory: it frees no block of a task and writes no guarded byte. -/
def Allowed (kernelHeap : KernelHeap) (s : SchedState) : SchedAction → Prop
  | .create entry pageDir isUser => ∃ sched new,
    s.sched.newTask entry pageDir isUser = some (sched, new) ∧
      CreatedTask.Allocated ⟨new, entry, isUser⟩
  | .tick _ => True
  | .syscall esp =>
    s.sched.frameEax esp.toNat = 1 → s.sched.get s.sched.currentTask .pid ≠ 0
  | .other action => s.heapState.Allowed kernelHeap action ∧
    (∀ p n, (p, n) ∈ s.blocks → action ≠ .kfree p) ∧
    ∀ x v, action = .write x v → ¬ s.Guarded x

end SchedState

/-- The scheduler before `init_scheduler`: its variables are zero. -/
def Sched.boot (heap : Heap) (tssEsp0 cr3 : Nat) (console : List Print) : Sched :=
  ⟨heap, 0, 0, 0, false, tssEsp0, cr3, console⟩

/-- All runs after `init_scheduler`, whose call of `kmalloc` succeeds, on a heap in any
state. -/
def schedRuns (kernelHeap : KernelHeap) : TransitionSystem SchedState SchedAction where
  init := fun s => ∃ hs tssEsp0 cr3 console stackSpace sched,
    (heapRuns kernelHeap).Reachable hs ∧
    (Sched.boot hs.heap tssEsp0 cr3 console).initScheduler stackSpace = some sched ∧
    sched.currentTask ≠ 0 ∧
    s = ⟨sched, (sched.currentTask, taskStructSize) :: hs.live, sched.currentTask, [], [], []⟩
  allowed := SchedState.Allowed kernelHeap
  step := SchedState.step

/-! ## The invariant -/

/-- The invariant of the ring, also between the two halves of the exit system call. -/
structure RingInv (kernelHeap : KernelHeap) (s : SchedState) : Prop where
  heap : ∃ bs, HeapInv kernelHeap s.heapState bs
  owned : ∀ b, b ∈ s.blocks → b ∈ s.live
  distinct : (s.blocks.map Prod.fst).Nodup
  active : s.sched.schedulerActive = true
  queue : s.sched.taskQueue = s.idle
  links : Links (fun t => s.sched.get t .next) s.tasks s.idle
  current : s.sched.currentTask ∈ s.tasks
  only : ∀ t, t ∈ s.tasks → s.sched.get t .state = taskRunning → t = s.sched.currentTask
  idlePid : s.sched.get s.idle .pid = 0
  idleRuns : s.sched.runnable s.idle = true
  exited : ∀ t, t ∈ s.exited → t ∈ s.tasks ∧ s.sched.get t .state = taskSuspended

namespace RingInv

variable {kernelHeap : KernelHeap} {s : SchedState} {t p n : Nat}

theorem task_block (s : SchedState) (ht : t ∈ s.tasks) : (t, taskStructSize) ∈ s.blocks := by
  rcases List.mem_cons.mp ht with rfl | hmem
  · exact List.mem_cons_self
  · obtain ⟨c, hc, rfl⟩ := List.mem_map.mp hmem
    refine List.mem_cons_of_mem _ (List.mem_flatMap.mpr ⟨c, hc, ?_⟩)
    simp [CreatedTask.blocks]

theorem created_block (s : SchedState) {c : CreatedTask} (hc : c ∈ s.created)
    (hp : (p, n) ∈ c.blocks) : (p, n) ∈ s.blocks :=
  List.mem_cons_of_mem _ (List.mem_flatMap.mpr ⟨c, hc, hp⟩)

theorem nodup (h : RingInv kernelHeap s) : s.tasks.Nodup := by
  refine h.distinct.sublist (List.Sublist.cons_cons s.idle ?_)
  rw [List.map_flatMap]
  induction s.created with
  | nil => exact List.Sublist.slnil
  | cons c cs ih =>
    have hc : [c.new.addr].Sublist (c.blocks.map Prod.fst) :=
      List.singleton_sublist.mpr (by simp [CreatedTask.blocks])
    rw [List.map_cons, List.flatMap_cons]
    exact hc.append ih

theorem range (h : RingInv kernelHeap s) (ht : t ∈ s.tasks) :
    0 < t ∧ t + taskStructSize < 2 ^ 32 := by
  obtain ⟨bs, hheap⟩ := h.heap
  exact hheap.live_range (h.owned _ (task_block s ht))

/-- Different blocks of tasks do not overlap. -/
theorem blocks_apart (h : RingInv kernelHeap s) {q m : Nat} (hp : (p, n) ∈ s.blocks)
    (hq : (q, m) ∈ s.blocks) (hne : q ≠ p) : p + n ≤ q ∨ q + m ≤ p := by
  obtain ⟨bs, hheap⟩ := h.heap
  exact hheap.payload_apart (h.owned _ hp) (h.owned _ hq) hne

theorem apart (h : RingInv kernelHeap s) : RecordsApart s.tasks := fun _ ht _ hu hne =>
  h.blocks_apart (task_block s ht) (task_block s hu) (Ne.symm hne)

theorem length_le (h : RingInv kernelHeap s) : s.tasks.length ≤ 2 ^ 32 := by
  have hsub : s.tasks ⊆ List.range (2 ^ 32) := fun t ht => by
    have := h.range ht
    exact List.mem_range.mpr (by omega)
  have hle := (h.nodup.subperm hsub).length_le
  rwa [List.length_range] at hle

/-! ## Actions that write to no record -/

/-- A change that keeps the variables of the ring and the bytes of the records keeps
the invariant. -/
theorem frame (h : RingInv kernelHeap s) {s' : SchedState}
    (hheap : ∃ bs, HeapInv kernelHeap s'.heapState bs)
    (howned : ∀ b, b ∈ s.blocks → b ∈ s'.live)
    (hbytes : ∀ t, t ∈ s.tasks → ∀ x, t ≤ x → x < t + taskStructSize →
      s'.sched.heap.mem x = s.sched.heap.mem x)
    (hactive : s'.sched.schedulerActive = s.sched.schedulerActive)
    (hqueue : s'.sched.taskQueue = s.sched.taskQueue)
    (hcurrent : s'.sched.currentTask = s.sched.currentTask)
    (hidle : s'.idle = s.idle) (hcreated : s'.created = s.created)
    (hexited : s'.exited = s.exited) : RingInv kernelHeap s' := by
  have htasks : s'.tasks = s.tasks := by rw [SchedState.tasks, SchedState.tasks, hidle, hcreated]
  have hblocks : s'.blocks = s.blocks := by
    rw [SchedState.blocks, SchedState.blocks, hidle, hcreated]
  have hget : ∀ t, t ∈ s.tasks → ∀ f, s'.sched.get t f = s.sched.get t f := fun t ht f =>
    Sched.get_congr (hbytes t ht) f
  have hidlemem : s.idle ∈ s.tasks := List.mem_cons_self
  refine ⟨hheap, ?_, ?_, ?_, ?_, ?_, ?_, ?_, ?_, ?_, ?_⟩
  · rw [hblocks]
    exact howned
  · rw [hblocks]
    exact h.distinct
  · rw [hactive, h.active]
  · rw [hqueue, h.queue, hidle]
  · rw [htasks, hidle]
    exact h.links.congr fun t ht => hget t ht .next
  · rw [hcurrent, htasks]
    exact h.current
  · rw [htasks, hcurrent]
    intro t ht hrun
    rw [hget t ht] at hrun
    exact h.only t ht hrun
  · rw [hidle, hget _ hidlemem, h.idlePid]
  · rw [hidle, Sched.runnable_congr (hget _ hidlemem .state), h.idleRuns]
  · rw [hexited, htasks]
    intro t ht
    obtain ⟨hmem, hstate⟩ := h.exited t ht
    exact ⟨hmem, (hget t hmem .state).trans hstate⟩

/-- Other code leaves the guarded bytes of the tasks alone. -/
theorem other_bytes (h : RingInv kernelHeap s) {action : HeapAction}
    (hallowed : s.Allowed kernelHeap (.other action)) (hp : (p, n) ∈ s.blocks) {x : Nat}
    (hlow : p ≤ x) (hhigh : x < p + n) (hguard : s.Guarded x) :
    (s.step (.other action)).sched.heap.mem x = s.sched.heap.mem x := by
  obtain ⟨hheap, hfree, hwrite⟩ := hallowed
  obtain ⟨bs, hinv⟩ := h.heap
  refine (hinv.step_live hheap (h.owned _ hp) (hfree _ _ hp)).2 x hlow hhigh ?_
  intro v heq
  exact hwrite x v heq hguard

theorem other_get (h : RingInv kernelHeap s) {action : HeapAction}
    (hallowed : s.Allowed kernelHeap (.other action)) (ht : t ∈ s.tasks) {f : TaskField} :
    (s.step (.other action)).sched.get t f = s.sched.get t f :=
  Sched.get_congr (fun _ hlow hhigh => h.other_bytes hallowed (task_block s ht) hlow hhigh
    (Or.inl ⟨t, ht, hlow, hhigh⟩)) f

/-- Other code. -/
theorem other (h : RingInv kernelHeap s) {action : HeapAction}
    (hallowed : s.Allowed kernelHeap (.other action)) :
    RingInv kernelHeap (s.step (.other action)) := by
  have ⟨hheap, hfree, _⟩ := hallowed
  obtain ⟨bs, hinv⟩ := h.heap
  refine h.frame (hinv.step hheap) ?_ ?_ rfl rfl rfl rfl rfl rfl
  · intro b hb
    exact (hinv.step_live hheap (h.owned b hb) (hfree b.1 b.2 hb)).1
  · intro t ht x hlow hhigh
    exact h.other_bytes hallowed (task_block s ht) hlow hhigh (Or.inl ⟨t, ht, hlow, hhigh⟩)

/-! ## Switching -/

theorem not_runnable {sched : Sched} (h : sched.get t .state = taskSuspended) :
    sched.runnable t = false := by
  rw [Sched.runnable, h]
  rfl

/-- Writing to records only keeps the heap intact. -/
theorem heap_of_records (h : RingInv kernelHeap s) {sched : Sched}
    (hhead : sched.heap.heapHead = s.sched.heap.heapHead)
    (hmem : ∀ x, OutsideRecords s.tasks x → sched.heap.mem x = s.sched.heap.mem x) :
    ∃ bs, HeapInv kernelHeap ⟨sched.heap, s.live⟩ bs := by
  obtain ⟨bs, hheap⟩ := h.heap
  refine ⟨bs, hheap.write_live hhead fun x hx => hmem x fun t ht => ?_⟩
  exact hx t taskStructSize (h.owned _ (task_block s ht))

/-- Giving the CPU to a runnable task keeps the invariant. -/
theorem of_switchEffect (h : RingInv kernelHeap s) {sched : Sched} {esp next : Nat}
    (heff : Sched.SwitchEffect s.sched sched s.tasks esp next) (hnext : next ∈ s.tasks)
    (hrun : s.sched.runnable next = true) :
    RingInv kernelHeap
      { s with sched, switches := (s.sched.currentTask, esp) :: s.switches } := by
  have hidle : s.idle ∈ s.tasks := List.mem_cons_self
  refine ⟨h.heap_of_records heff.head heff.mem, h.owned, h.distinct, ?_, ?_, ?_, ?_, ?_, ?_, ?_, ?_⟩
  · exact heff.active.trans h.active
  · exact heff.queue.trans h.queue
  · exact h.links.congr fun t ht => heff.field t ht .next (by decide) (by decide)
  · show sched.currentTask ∈ s.tasks
    rw [heff.current]
    exact hnext
  · -- the old current task has left the state RUNNING
    intro t ht hstate
    show t = sched.currentTask
    rw [heff.current]
    change sched.get t .state = taskRunning at hstate
    rw [heff.state t ht] at hstate
    split at hstate
    next heqt => exact heqt
    next =>
      split at hstate
      next => exact absurd hstate (by decide)
      next hnot => exact absurd ⟨h.only t ht hstate, hstate⟩ hnot
  · exact (heff.field _ hidle .pid (by decide) (by decide)).trans h.idlePid
  · show sched.runnable s.idle = true
    rw [Sched.runnable, heff.state _ hidle]
    split
    · rfl
    · split
      · rfl
      · exact h.idleRuns
  · -- a suspended task is not the one chosen
    intro t ht
    obtain ⟨hmem, hstate⟩ := h.exited t ht
    have hne : t ≠ next := by
      rintro rfl
      rw [not_runnable hstate] at hrun
      exact absurd hrun (by decide)
    refine ⟨hmem, ?_⟩
    show sched.get t .state = taskSuspended
    rw [heff.state t hmem, if_neg hne, if_neg (fun hc => ?_), hstate]
    rw [hstate] at hc
    exact absurd hc.2 (by decide)

/-- The ring read from the current task on. -/
theorem split (h : RingInv kernelHeap s) : ∃ pre post,
    s.tasks = pre ++ s.sched.currentTask :: post ∧ Links (fun t => s.sched.get t .next)
      (s.sched.currentTask :: (post ++ pre)) s.sched.currentTask := by
  obtain ⟨pre, post, hsplit⟩ := List.append_of_mem h.current
  refine ⟨pre, post, hsplit, ?_⟩
  have hlinks := h.links
  have hhead : (pre ++ s.sched.currentTask :: post).headD s.sched.currentTask = s.idle := by
    rw [← hsplit]
    rfl
  rw [hsplit, ← hhead] at hlinks
  exact hlinks.rotate

theorem next_mem (h : RingInv kernelHeap s) (ht : t ∈ s.tasks) : s.sched.get t .next ∈ s.tasks := by
  rcases h.links.next_mem ht with hmem | hidle
  · exact hmem
  · rw [hidle]
    exact List.mem_cons_self

/-- A call of `task_switch` returns and gives the CPU to a runnable task. -/
theorem switch (h : RingInv kernelHeap s) {esp : Nat} (hesp : esp < 2 ^ 32) :
    ∃ sched next, s.sched.taskSwitch esp = some (sched, sched.get next .kstack) ∧
      Sched.SwitchEffect s.sched sched s.tasks esp next ∧ next ∈ s.tasks ∧
      s.sched.runnable next = true ∧
      RingInv kernelHeap
        { s with sched, switches := (s.sched.currentTask, esp) :: s.switches } := by
  obtain ⟨pre, post, hsplit, hring⟩ := h.split
  have hpos := (h.range h.current).1
  have hapart := h.apart
  have hnodup := h.nodup
  have hlen := h.length_le
  rw [hsplit] at hapart hnodup hlen
  obtain ⟨heq, heff⟩ := Sched.taskSwitch_effect hapart hnodup hring h.active (by omega) hlen hesp
  have hnext := Sched.chosen_mem s.sched pre post
  have hrun : s.sched.runnable (s.sched.chosen pre post) = true :=
    Sched.chosen_runnable (by rw [← hsplit]; exact List.mem_cons_self) h.idleRuns
  rw [← hsplit] at heff hnext
  exact ⟨_, _, heq, heff, hnext, hrun, h.of_switchEffect heff hnext hrun⟩

/-- The first half of the exit system call: the current task, which is not PID 0, is
marked. -/
theorem suspend (h : RingInv kernelHeap s) (hpid : s.sched.get s.sched.currentTask .pid ≠ 0) :
    RingInv kernelHeap
      { s with
        sched := s.sched.set s.sched.currentTask .state taskSuspended
        exited := s.sched.currentTask :: s.exited } := by
  have hget : ∀ t, t ∈ s.tasks → ∀ f,
      (s.sched.set s.sched.currentTask .state taskSuspended).get t f =
        if t = s.sched.currentTask ∧ f = .state then taskSuspended else s.sched.get t f :=
    fun t ht f => Sched.get_set h.apart h.current ht (by decide)
  have hfield : ∀ t, t ∈ s.tasks → ∀ f, f ≠ .state →
      (s.sched.set s.sched.currentTask .state taskSuspended).get t f = s.sched.get t f := by
    intro t ht f hf
    rw [hget t ht, if_neg fun hc => hf hc.2]
  have hstate : ∀ t, t ∈ s.tasks → t ≠ s.sched.currentTask →
      (s.sched.set s.sched.currentTask .state taskSuspended).get t .state =
        s.sched.get t .state := by
    intro t ht hne
    rw [hget t ht, if_neg fun hc => hne hc.1]
  have hcur : (s.sched.set s.sched.currentTask .state taskSuspended).get s.sched.currentTask
      .state = taskSuspended := by
    rw [hget _ h.current, if_pos ⟨rfl, rfl⟩]
  have hidle : s.idle ∈ s.tasks := List.mem_cons_self
  have hne : s.idle ≠ s.sched.currentTask := fun heq => hpid (by rw [← heq, h.idlePid])
  refine ⟨h.heap_of_records rfl fun x hx => Sched.set_outside (hx _ h.current), h.owned, h.distinct,
    h.active, h.queue, ?_, h.current, ?_, ?_, ?_, ?_⟩
  · exact h.links.congr fun t ht => hfield t ht .next (by decide)
  · intro t ht hrun
    change (s.sched.set s.sched.currentTask .state taskSuspended).get t .state = _ at hrun
    by_contra hnet
    rw [hstate t ht hnet] at hrun
    exact hnet (h.only t ht hrun)
  · exact (hfield _ hidle .pid (by decide)).trans h.idlePid
  · exact (Sched.runnable_congr (hstate _ hidle hne)).trans h.idleRuns
  · intro t ht
    show t ∈ s.tasks ∧ _ = taskSuspended
    rcases List.mem_cons.mp ht with rfl | hmem
    · exact ⟨h.current, hcur⟩
    · obtain ⟨htask, hsus⟩ := h.exited t hmem
      refine ⟨htask, ?_⟩
      rw [hget t htask]
      split
      · rfl
      · exact hsus

/-! ## Creating tasks -/

theorem tasks_create (s : SchedState) (c : CreatedTask) (sched : Sched) (live : List (Nat × Nat)) :
    ({ s with sched, live, created := s.created ++ [c] } : SchedState).tasks =
      s.tasks ++ [c.new.addr] := by
  simp [SchedState.tasks]

theorem blocks_create (s : SchedState) (c : CreatedTask) (sched : Sched)
    (live : List (Nat × Nat)) :
    ({ s with sched, live, created := s.created ++ [c] } : SchedState).blocks =
      s.blocks ++ c.blocks := by
  simp [SchedState.blocks]

/-- The record of every task, the new one included, is a block of its own. -/
theorem record_live (h : RingInv kernelHeap s) {c : CreatedTask}
    (ht : t ∈ s.tasks ++ [c.new.addr]) : (t, taskStructSize) ∈ c.blocks ++ s.live := by
  rcases List.mem_append.mp ht with hold | hnew
  · exact List.mem_append_right _ (h.owned _ (task_block s hold))
  · rw [List.mem_singleton.mp hnew]
    exact List.mem_append_left _ (by simp [CreatedTask.blocks])

/-- `task_create` returns, with the effects of its two parts. -/
theorem create_effect (h : RingInv kernelHeap s) {entry pageDir isUser : UInt32} {sched1 : Sched}
    {new : Sched.NewTask} (hnew : s.sched.newTask entry pageDir isUser = some (sched1, new))
    (hgrows : Sched.Grows kernelHeap s.sched sched1 s.live
      (CreatedTask.blocks ⟨new, entry, isUser⟩)) :
    ∃ sched2, s.sched.taskCreate entry pageDir isUser = some (sched2, new.addr) ∧
      Sched.EnqueueEffect sched1 sched2 s.tasks new.addr ∧
      (s.tasks ++ [new.addr]).Nodup := by
  have hblock : (new.addr, taskStructSize) ∈ CreatedTask.blocks ⟨new, entry, isUser⟩ := by
    simp [CreatedTask.blocks]
  have hlive : ∀ t, t ∈ s.tasks ++ [new.addr] →
      (t, taskStructSize) ∈ CreatedTask.blocks ⟨new, entry, isUser⟩ ++ s.live := fun _ ht =>
    h.record_live ht
  have hnodup : (s.tasks ++ [new.addr]).Nodup := by
    refine List.nodup_append.mpr ⟨h.nodup, List.nodup_singleton _, fun t ht u hu => ?_⟩
    rw [List.mem_singleton.mp hu]
    exact hgrows.fresh hblock (h.owned _ (task_block s ht))
  have hapart : RecordsApart (s.tasks ++ [new.addr]) := fun t ht u hu hne =>
    hgrows.apart (hlive t ht) (hlive u hu) (Ne.symm hne)
  have hlinks : Links (fun t => sched1.get t .next) s.tasks sched1.taskQueue := by
    rw [hgrows.queue, h.queue]
    exact h.links.congr fun t ht =>
      Sched.get_congr (hgrows.bytes _ _ (h.owned _ (task_block s ht))) .next
  have hqueue : sched1.taskQueue = s.idle := hgrows.queue.trans h.queue
  have hidle := h.range (List.mem_cons_self : s.idle ∈ s.tasks)
  have hnewrange := hgrows.range (hlive new.addr (by simp))
  have hlen := h.length_le
  have hhead : s.tasks.head? = some sched1.taskQueue := by
    rw [hqueue]
    rfl
  obtain ⟨pre, c, hsplit⟩ : ∃ pre c, s.tasks = pre ++ [c] :=
    ⟨s.tasks.dropLast, s.tasks.getLast (List.cons_ne_nil _ _),
      (List.dropLast_append_getLast _).symm⟩
  rw [hsplit] at hlinks hhead hnodup hapart hlen ⊢
  rw [List.length_append, List.length_singleton] at hlen
  obtain ⟨sched2, heq, heff⟩ := Sched.enqueue_effect hlinks hhead hnodup hapart (by omega)
    (by omega) (by omega) (by omega)
  refine ⟨sched2, ?_, heff, hnodup⟩
  simp only [Sched.taskCreate, hnew, Option.bind_eq_bind, Option.bind_some, heq]

theorem create (h : RingInv kernelHeap s) {entry pageDir isUser : UInt32}
    (hallowed : s.Allowed kernelHeap (.create entry pageDir isUser)) :
    RingInv kernelHeap (s.step (.create entry pageDir isUser)) := by
  obtain ⟨sched1, new, hnew, hok⟩ := hallowed
  obtain ⟨hgrows, hready, _, _⟩ := Sched.newTask_effect h.heap hnew hok
  obtain ⟨sched2, heq, heff, _⟩ := h.create_effect hnew hgrows
  simp only [SchedState.step, hnew, heq]
  -- the fields of the older tasks
  have hold : ∀ t, t ∈ s.tasks → ∀ f, f ≠ .next → sched2.get t f = s.sched.get t f := by
    intro t ht f hf
    rw [heff.field t (List.mem_append_left _ ht) f hf]
    exact Sched.get_congr (hgrows.bytes _ _ (h.owned _ (task_block s ht))) f
  have hidle : s.idle ∈ s.tasks := List.mem_cons_self
  refine ⟨?_, ?_, ?_, ?_, ?_, ?_, ?_, ?_, ?_, ?_, ?_⟩
  · obtain ⟨bs, hheap⟩ := hgrows.heap
    refine ⟨bs, hheap.write_live heff.head fun x hx => heff.mem x fun t ht => ?_⟩
    exact hx t taskStructSize (h.record_live (c := ⟨new, entry, isUser⟩) ht)
  · intro b hb
    rw [blocks_create] at hb
    rcases List.mem_append.mp hb with hb | hb
    · exact List.mem_append_right _ (h.owned b hb)
    · exact List.mem_append_left _ hb
  · rw [blocks_create, List.map_append]
    obtain ⟨bs, hheap⟩ := hgrows.heap
    have hnodup := hheap.nodup
    rw [List.map_append] at hnodup
    refine List.nodup_append.mpr ⟨h.distinct, (List.nodup_append.mp hnodup).1, ?_⟩
    intro q hq p hp
    obtain ⟨⟨q, m⟩, hqb, rfl⟩ := List.mem_map.mp hq
    obtain ⟨⟨p, n⟩, hpb, rfl⟩ := List.mem_map.mp hp
    exact hgrows.fresh hpb (h.owned _ hqb)
  · exact heff.active.trans (hgrows.active.trans h.active)
  · exact heff.queue.trans (hgrows.queue.trans h.queue)
  · have hlinks := heff.links
    rw [hgrows.queue, h.queue] at hlinks
    rw [tasks_create]
    exact hlinks
  · show sched2.currentTask ∈ _
    rw [tasks_create, heff.current, hgrows.current]
    exact List.mem_append_left _ h.current
  · rw [tasks_create]
    show ∀ t, t ∈ s.tasks ++ [new.addr] → sched2.get t .state = taskRunning →
      t = sched2.currentTask
    intro t ht hrun
    rw [heff.current, hgrows.current]
    rcases List.mem_append.mp ht with hmem | hmem
    · rw [hold t hmem .state (by decide)] at hrun
      exact h.only t hmem hrun
    · rw [List.mem_singleton.mp hmem, heff.field _ (by simp) .state (by decide), hready] at hrun
      exact absurd hrun (by decide)
  · exact (hold _ hidle .pid (by decide)).trans h.idlePid
  · exact (Sched.runnable_congr (hold _ hidle .state (by decide))).trans h.idleRuns
  · intro t ht
    obtain ⟨hmem, hstate⟩ := h.exited t ht
    rw [tasks_create]
    exact ⟨List.mem_append_left _ hmem, (hold t hmem .state (by decide)).trans hstate⟩

/-- `task_create` changes neither the current task nor a field but `next` of the older
tasks. -/
theorem create_old (h : RingInv kernelHeap s) {entry pageDir isUser : UInt32}
    (hallowed : s.Allowed kernelHeap (.create entry pageDir isUser)) :
    (s.step (.create entry pageDir isUser)).sched.currentTask = s.sched.currentTask ∧
      ∀ t, t ∈ s.tasks → ∀ f, f ≠ .next →
        (s.step (.create entry pageDir isUser)).sched.get t f = s.sched.get t f := by
  obtain ⟨sched1, new, hnew, hok⟩ := hallowed
  obtain ⟨hgrows, _⟩ := Sched.newTask_effect h.heap hnew hok
  obtain ⟨sched2, heq, heff, _⟩ := h.create_effect hnew hgrows
  simp only [SchedState.step, hnew, heq]
  refine ⟨heff.current.trans hgrows.current, fun t ht f hf => ?_⟩
  rw [heff.field t (List.mem_append_left _ ht) f hf]
  exact Sched.get_congr (hgrows.bytes _ _ (h.owned _ (task_block s ht))) f

/-! ## Starting -/

/-- `init_scheduler` makes a ring of PID 0 alone, on every heap. -/
theorem start {hs : HeapState} {tssEsp0 cr3 stackSpace : Nat} {console : List Print} {sched : Sched}
    (hheap : ∃ bs, HeapInv kernelHeap hs bs)
    (hinit : (Sched.boot hs.heap tssEsp0 cr3 console).initScheduler stackSpace = some sched)
    (hne : sched.currentTask ≠ 0) :
    RingInv kernelHeap ⟨sched, (sched.currentTask, taskStructSize) :: hs.live, sched.currentTask,
        [], [], []⟩ ∧ sched.get sched.currentTask .state = taskRunning := by
  obtain ⟨hheap, hqueue, hactive, hnext, hstate, hpid⟩ :=
    Sched.initScheduler_effect hheap rfl hinit hne
  refine ⟨⟨hheap, ?_, List.nodup_singleton _, hactive, hqueue, ⟨hnext, trivial⟩,
    List.mem_singleton_self _, ?_, hpid, ?_, ?_⟩, hstate⟩
  · intro b hb
    rw [List.mem_singleton.mp hb]
    exact List.mem_cons_self
  · intro t ht _
    exact List.mem_singleton.mp ht
  · show sched.runnable sched.currentTask = true
    rw [Sched.runnable, hstate]
    rfl
  · intro t ht
    exact absurd ht List.not_mem_nil

theorem init (h : (schedRuns kernelHeap).init s) :
    RingInv kernelHeap s ∧ s.sched.get s.sched.currentTask .state = taskRunning := by
  obtain ⟨hs, tssEsp0, cr3, console, stackSpace, sched, hreach, hinit, hne, rfl⟩ := h
  exact start (reachable_heapInv hreach) hinit hne

end RingInv

/-! ## All actions -/

theorem Sched.syscallHandler_yield {s : Sched} {esp : Nat} (h : s.frameEax esp = 3) :
    s.syscallHandler esp = s.taskSwitch esp := by
  rw [syscallHandler, h]
  rfl

/-- The other system calls only print. -/
theorem Sched.syscallHandler_other {s : Sched} {esp : Nat} (h1 : s.frameEax esp ≠ 1)
    (h3 : s.frameEax esp ≠ 3) :
    s.syscallHandler esp = none ∨
      ∃ console, s.syscallHandler esp = some ({ s with console }, esp) := by
  rw [syscallHandler, if_neg h1]
  by_cases h2 : s.frameEax esp = 2
  · rw [if_pos h2]
    cases stringLoop s.heap.mem (2 ^ 32) (s.frameEbx esp) with
    | none => exact Or.inl rfl
    | some text => exact Or.inr ⟨_, rfl⟩
  · rw [if_neg h2, if_neg h3]
    exact Or.inr ⟨s.console, rfl⟩

namespace RingInv

variable {kernelHeap : KernelHeap} {s : SchedState}

/-- A system call that switches: the exit call switches from the state in which the
current task is marked. -/
theorem syscall_switch (h : RingInv kernelHeap s) {esp : UInt32}
    (hallowed : s.Allowed kernelHeap (.syscall esp))
    (hnum : s.sched.frameEax esp.toNat = 1 ∨ s.sched.frameEax esp.toNat = 3) :
    ∃ s1 : SchedState, RingInv kernelHeap s1 ∧ s1.tasks = s.tasks ∧ s1.created = s.created ∧
      s1.idle = s.idle ∧ s1.switches = s.switches ∧
      s1.sched.currentTask = s.sched.currentTask ∧
      (∀ t, t ∈ s.tasks → ∀ f, f ≠ .state → s1.sched.get t f = s.sched.get t f) ∧
      (∀ x, OutsideRecords s.tasks x → s1.sched.heap.mem x = s.sched.heap.mem x) ∧
      s.sched.syscallHandler esp.toNat = s1.sched.taskSwitch esp.toNat ∧
      s.step (.syscall esp) = s1.step (.tick esp) := by
  rcases hnum with hexit | hyield
  · refine ⟨{ s with
      sched := s.sched.set s.sched.currentTask .state taskSuspended
      exited := s.sched.currentTask :: s.exited }, h.suspend (hallowed hexit), rfl, rfl, rfl, rfl,
      rfl, ?_, fun x hx => Sched.set_outside (hx _ h.current), if_pos hexit, ?_⟩
    · intro t ht f hf
      show (s.sched.set s.sched.currentTask .state taskSuspended).get t f = _
      rw [Sched.get_set h.apart h.current ht (by decide), if_neg fun hc => hf hc.2]
    · obtain ⟨sched, next, heq, _⟩ := (h.suspend (hallowed hexit)).switch esp.toNat_lt
      have hcall : s.sched.syscallHandler esp.toNat = _ := (if_pos hexit).trans heq
      simp only [SchedState.step, hcall, heq, hexit, if_true, true_or]
      rfl
  · refine ⟨s, h, rfl, rfl, rfl, rfl, rfl, fun _ _ _ _ => rfl, fun _ _ => rfl,
      Sched.syscallHandler_yield hyield, ?_⟩
    obtain ⟨sched, next, heq, _⟩ := h.switch esp.toNat_lt
    have hcall := (Sched.syscallHandler_yield hyield).trans heq
    have hne : ¬ (3 = 1) := by decide
    simp only [SchedState.step, hcall, heq, hyield, hne, if_false, or_true, if_true]

/-- A system call that does not switch changes the console only. -/
theorem syscall_print {esp : UInt32}
    (hnum : ¬ (s.sched.frameEax esp.toNat = 1 ∨ s.sched.frameEax esp.toNat = 3)) :
    ∃ console, s.step (.syscall esp) = { s with sched := { s.sched with console } } := by
  have hexit : s.sched.frameEax esp.toNat ≠ 1 := fun h => hnum (Or.inl h)
  rcases Sched.syscallHandler_other hexit (fun h => hnum (Or.inr h)) with hnone | ⟨console, hsome⟩
  · refine ⟨s.sched.console, ?_⟩
    simp only [SchedState.step, hnone]
  · refine ⟨console, ?_⟩
    simp only [SchedState.step, hsome, if_neg hexit, if_neg hnum]

theorem tick (h : RingInv kernelHeap s) (esp : UInt32) :
    RingInv kernelHeap (s.step (.tick esp)) ∧
      (s.step (.tick esp)).sched.get (s.step (.tick esp)).sched.currentTask .state =
        taskRunning := by
  obtain ⟨sched, next, heq, heff, hnext, _, hinv⟩ := h.switch esp.toNat_lt
  simp only [SchedState.step, heq]
  refine ⟨hinv, ?_⟩
  rw [heff.current, heff.state next hnext, if_pos rfl]

/-- Printing changes nothing that the ring depends on. -/
theorem print (h : RingInv kernelHeap s) (console : List Print) :
    RingInv kernelHeap { s with sched := { s.sched with console } } :=
  h.frame h.heap h.owned (fun _ _ _ _ _ => rfl) rfl rfl rfl rfl rfl rfl

/-- Every allowed action keeps the invariant. -/
theorem keep (h : RingInv kernelHeap s) {action : SchedAction}
    (hallowed : s.Allowed kernelHeap action) : RingInv kernelHeap (s.step action) := by
  cases action with
  | create entry pageDir isUser => exact h.create hallowed
  | tick esp => exact (h.tick esp).1
  | syscall esp =>
    by_cases hnum : s.sched.frameEax esp.toNat = 1 ∨ s.sched.frameEax esp.toNat = 3
    · obtain ⟨s1, h1, _, _, _, _, _, _, _, _, heq⟩ := h.syscall_switch hallowed hnum
      rw [heq]
      exact (h1.tick esp).1
    · obtain ⟨console, heq⟩ := syscall_print hnum
      rw [heq]
      exact h.print console
  | other action => exact h.other hallowed

theorem step (h : RingInv kernelHeap s)
    (hrun : s.sched.get s.sched.currentTask .state = taskRunning) {action : SchedAction}
    (hallowed : s.Allowed kernelHeap action) :
    RingInv kernelHeap (s.step action) ∧
      (s.step action).sched.get (s.step action).sched.currentTask .state = taskRunning := by
  refine ⟨h.keep hallowed, ?_⟩
  cases action with
  | create entry pageDir isUser =>
    obtain ⟨hcur, hold⟩ := h.create_old hallowed
    rw [hcur, hold _ h.current .state (by decide), hrun]
  | tick esp => exact (h.tick esp).2
  | syscall esp =>
    by_cases hnum : s.sched.frameEax esp.toNat = 1 ∨ s.sched.frameEax esp.toNat = 3
    · obtain ⟨s1, h1, _, _, _, _, _, _, _, _, heq⟩ := h.syscall_switch hallowed hnum
      rw [heq]
      exact (h1.tick esp).2
    · obtain ⟨console, heq⟩ := syscall_print hnum
      rw [heq]
      exact hrun
  | other action =>
    have hcurrent : (s.step (.other action)).sched.currentTask = s.sched.currentTask := rfl
    rw [hcurrent, h.other_get hallowed h.current, hrun]

end RingInv

/-- The invariant holds in every state of a run, and the current task is RUNNING. -/
theorem reachable_ringInv {kernelHeap : KernelHeap} {s : SchedState}
    (h : (schedRuns kernelHeap).Reachable s) :
    RingInv kernelHeap s ∧ s.sched.get s.sched.currentTask .state = taskRunning := by
  refine h.invariant (P := fun s => RingInv kernelHeap s ∧
    s.sched.get s.sched.currentTask .state = taskRunning) (fun s hinit => RingInv.init hinit) ?_
  rintro s action _ ⟨hinv, hrun⟩ hallowed
  exact hinv.step hrun hallowed

/-! ## The ring of tasks -/

theorem SchedState.step_exited (s : SchedState) (action : SchedAction) {t : Nat}
    (ht : t ∈ s.exited) : t ∈ (s.step action).exited := by
  cases action with
  | create entry pageDir isUser =>
    simp only [step]
    split
    · exact ht
    · exact ht
  | tick esp =>
    simp only [step]
    split
    · exact ht
    · exact ht
  | syscall esp =>
    simp only [step]
    split
    · show t ∈ if _ then _ else _
      split
      · exact List.mem_cons_of_mem _ ht
      · exact ht
    · exact ht
  | other action => exact ht

/-- PID 0 stays PID 0. -/
theorem SchedState.step_idle (s : SchedState) (action : SchedAction) :
    (s.step action).idle = s.idle := by
  cases action with
  | create entry pageDir isUser | tick esp | syscall esp =>
    simp only [step]
    split
    · rfl
    · rfl
  | other action => rfl

/-- The ring and the states of the tasks. In every state of a run
* the `next` pointers from `task_queue` visit all tasks in the order of their
  creation, each once, and come back;
* the current task is one of them, and the only one in the state RUNNING;
* a task that exited is SUSPENDED, is not current, and stays among the exited ones;
* `task_switch` returns, also from the system calls exit (of another task than PID 0)
  and yield, and so does `task_create` when its calls of `kmalloc` succeed. -/
theorem run_scheduler_ring {kernelHeap : KernelHeap} {s : SchedState}
    (h : (schedRuns kernelHeap).Reachable s) :
    IsCycle (fun t => s.sched.get t .next) s.sched.taskQueue s.tasks ∧
      s.sched.currentTask ∈ s.tasks ∧
      (∀ t, t ∈ s.tasks → (s.sched.get t .state = taskRunning ↔ t = s.sched.currentTask)) ∧
      (∀ t, t ∈ s.exited → s.sched.get t .state = taskSuspended ∧ t ≠ s.sched.currentTask ∧
        ∀ action, t ∈ (s.step action).exited) ∧
      (∀ esp : UInt32, ∃ r, s.sched.taskSwitch esp.toNat = some r) ∧
      (∀ esp : UInt32, s.Allowed kernelHeap (.syscall esp) →
        s.sched.frameEax esp.toNat = 1 ∨ s.sched.frameEax esp.toNat = 3 →
          ∃ r, s.sched.syscallHandler esp.toNat = some r) ∧
      ∀ entry pageDir isUser, s.Allowed kernelHeap (.create entry pageDir isUser) →
        ∃ r, s.sched.taskCreate entry pageDir isUser = some r := by
  obtain ⟨hinv, hrun⟩ := reachable_ringInv h
  refine ⟨?_, hinv.current, fun t ht => ⟨hinv.only t ht, ?_⟩, fun t ht => ⟨?_, ?_, ?_⟩, ?_, ?_, ?_⟩
  · rw [hinv.queue]
    exact hinv.links.cycle hinv.nodup
  · rintro rfl
    exact hrun
  · exact (hinv.exited t ht).2
  · rintro rfl
    rw [(hinv.exited _ ht).2] at hrun
    exact absurd hrun (by decide)
  · exact fun action => s.step_exited action ht
  · intro esp
    obtain ⟨sched, next, heq, _⟩ := hinv.switch esp.toNat_lt
    exact ⟨_, heq⟩
  · intro esp hallowed hnum
    obtain ⟨s1, h1, _, _, _, _, _, _, _, hcall, _⟩ := hinv.syscall_switch hallowed hnum
    obtain ⟨sched, next, heq, _⟩ := h1.switch esp.toNat_lt
    exact ⟨_, hcall.trans heq⟩
  · rintro entry pageDir isUser ⟨sched1, new, hnew, hok⟩
    obtain ⟨hgrows, _⟩ := Sched.newTask_effect hinv.heap hnew hok
    obtain ⟨sched2, heq, _⟩ := hinv.create_effect hnew hgrows
    exact ⟨_, heq⟩

/-! ### A run -/

/-- A heap at the address 1 MB. -/
def sampleHeap : KernelHeap := ⟨0x100000, by decide, by decide, by decide⟩

def sampleBoot : Sched :=
  Sched.boot (Heap.initHeap sampleHeap ⟨fun _ => 0, 0, 0, TraceRing.empty⟩) 0 0 []

theorem sampleBoot_starts : (sampleBoot.initScheduler 0x5000).isSome = true := by decide +kernel

/-- The state after `init_scheduler`. -/
def sampleStart : SchedState :=
  let sched := (sampleBoot.initScheduler 0x5000).get sampleBoot_starts
  ⟨sched, [(sched.currentTask, taskStructSize)], sched.currentTask, [], [], []⟩

theorem sampleStart_reachable : (schedRuns sampleHeap).Reachable sampleStart := by
  refine .init ⟨⟨sampleBoot.heap, []⟩, 0, 0, [], 0x5000,
    (sampleBoot.initScheduler 0x5000).get sampleBoot_starts, .init ⟨_, rfl⟩,
    (Option.some_get sampleBoot_starts).symm, ?_, rfl⟩
  decide +kernel

instance (c : CreatedTask) : Decidable c.Allocated :=
  inferInstanceAs (Decidable (_ ∧ _ ∧ (_ → _)))

theorem create_allowed (kernelHeap : KernelHeap) {s : SchedState} {entry pageDir isUser : UInt32}
    (h : (s.sched.newTask entry pageDir isUser).any
      (fun r => decide (CreatedTask.Allocated ⟨r.2, entry, isUser⟩)) = true) :
    s.Allowed kernelHeap (.create entry pageDir isUser) := by
  obtain ⟨⟨sched, new⟩, heq, hok⟩ := (Option.any_eq_true _ _).mp h
  exact ⟨sched, new, heq, of_decide_eq_true hok⟩

/-- The state after a user task was created. -/
def sampleCreated : SchedState := sampleStart.step (.create 0x1000 0 1)

theorem sampleCreated_reachable : (schedRuns sampleHeap).Reachable sampleCreated :=
  sampleStart_reachable.step (a := SchedAction.create 0x1000 0 1)
    (create_allowed sampleHeap (by decide +kernel))

/-- The state after a tick gave that task the CPU. -/
def sampleRunning : SchedState := sampleCreated.step (.tick 0x9000)

theorem sampleRunning_reachable : (schedRuns sampleHeap).Reachable sampleRunning :=
  sampleCreated_reachable.step (a := SchedAction.tick 0x9000) trivial

/-- The run goes on with the exit system call of that task: its frame lies such that the
field `eax` is the operand of the trampoline. -/
theorem run_scheduler_ring_sample :
    sampleRunning.sched.currentTask = 0x100034 ∧
      ∃ s : SchedState, s.exited = [0x100034] ∧ s.sched.currentTask = 0x10000C ∧
        s.tasks = [0x10000C, 0x100034] ∧ s.sched.get 0x100034 .state = taskSuspended := by
  have hexit := sampleRunning_reachable.step (a := SchedAction.syscall 0x10103D)
    (show sampleRunning.Allowed sampleHeap (.syscall 0x10103D) by
      show _ → _
      decide +kernel)
  have hmem : 0x100034 ∈ ((schedRuns sampleHeap).step sampleRunning (.syscall 0x10103D)).exited := by
    decide +kernel
  refine ⟨by decide +kernel, _, by decide +kernel, by decide +kernel, by decide +kernel,
    ((run_scheduler_ring hexit).2.2.2.1 _ hmem).1⟩

end Newrex
