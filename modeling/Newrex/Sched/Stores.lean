import Newrex.Lib.Interrupt
import Newrex.Sched.Create

/-!
# `task_create` store by store

`task_create` as the sequence of its stores in the order of the source, those of `kmalloc` and
`memset` included, so that it can be interrupted between any two of them. A step reads what its
store depends on and then stores; the loops, which only read, take a step for each round.

`taskCreateStores_run`: without interrupts this is `Sched.taskCreate`.
-/

namespace Newrex

open LittleEndian Interrupt

namespace Sched

/-! ## The stores -/

/-- A store of `n` bytes, whose value may depend on the state. -/
def storeMem (n a : Nat) (v : Sched → Nat) : Prog Sched Unit :=
  .write fun s => s.setMem (store s.heap.mem n a (v s))

/-- A store into a task record. -/
def storeField (t : Nat) (f : TaskField) (v : Sched → Nat) : Prog Sched Unit :=
  storeMem 4 (t + f.offset) v

/-- The stores of `kmalloc` that cut the rest of a large block off. -/
def splitStores (curr size : Nat) : Prog Sched Unit := do
  let large ← Prog.read fun s => decide (s.heap.size curr > add32 (add32 size blockMetaSize) 4)
  if large then do
    let newBlock := add32 (add32 curr blockMetaSize) size
    storeMem 4 newBlock fun s => sub32 (sub32 (s.heap.size curr) size) blockMetaSize
    storeMem 4 (newBlock + 4) fun _ => 1
    storeMem 4 (newBlock + 8) fun s => s.heap.next curr
    storeMem 4 curr fun _ => size
    storeMem 4 (curr + 8) fun _ => newBlock
  else pure ()

/-- `total_bytes_allocated += size` and the call of `sys_trace`. -/
def countAllocation (size : Nat) (s : Sched) : Sched :=
  s.setHeap { s.heap with totalBytesAllocated := add32 s.heap.totalBytesAllocated size }
def traceAllocation (s : Sched) : Sched :=
  s.setHeap { s.heap with
    trace := sysTrace s.heap.trace (.ofLiteral "[MEM] Dynamic Heap Allocation") }

def takeBlockStores (curr size : Nat) : Prog Sched Nat := do
  splitStores curr size
  storeMem 4 (curr + 4) fun _ => 0
  Prog.write (countAllocation size)
  Prog.write traceAllocation
  pure (add32 curr blockMetaSize)

def kmallocLoopStores (size : Nat) : (fuel : Nat) → (curr : Nat) → Prog Sched Nat
  | 0, _ => .stuck
  | fuel + 1, curr =>
    if curr = 0 then pure 0
    else do
      let fits ← Prog.read fun s => decide (s.heap.isFree curr ≠ 0 ∧ s.heap.size curr ≥ size)
      if fits then takeBlockStores curr size
      else do
        let next ← Prog.read fun s => s.heap.next curr
        kmallocLoopStores size fuel next

def kmallocStores (size : UInt32) : Prog Sched Nat := do
  let head ← Prog.read fun s => s.heap.heapHead
  kmallocLoopStores size.toNat heapSize head

/-- `memset`. -/
def memsetStores (val : UInt8) : (dest count : Nat) → Prog Sched Unit
  | _, 0 => pure ()
  | dest, count + 1 => do
    storeMem 1 dest fun _ => val.toNat
    memsetStores val (dest + 1) count

/-- Assignments to the elements of an array, one after the other. -/
def bytesStores : (a : Nat) → List UInt8 → Prog Sched Unit
  | _, [] => pure ()
  | a, b :: bytes => do
    storeMem 1 a fun _ => b.toNat
    bytesStores (a + 1) bytes

/-- `*(--top) = v` for each of the words. -/
def pushStores : (top : Nat) → List Nat → Prog Sched Nat
  | top, [] => pure top
  | top, v :: words => do
    let top := sub32 top 4
    storeMem 4 top fun _ => v
    pushStores top words

def newRecordStores (t state pageDirectory : Nat) : Prog Sched Unit := do
  memsetStores 0 t taskStructSize
  storeField t .pid fun s => s.nextPid
  Prog.write fun s => { s with nextPid := add32 s.nextPid 1 }
  storeField t .state fun _ => state
  storeField t .pageDirectory fun _ => pageDirectory

def newUserStackStores (t : Nat) (isUser : UInt32) : Prog Sched (Nat × Nat) :=
  if isUser ≠ 0 then do
    let ustackPage ← kmallocStores 4096
    storeField t .ustack fun _ => add32 ustackPage 4096
    bytesStores ustackPage exitTrampoline
    let ustackTop ← pushStores (add32 ustackPage 4096) [ustackPage]
    pure (ustackPage, ustackTop)
  else do
    storeField t .ustack fun _ => 0
    pure (0, 0)

def fillKernelStackStores (t kstackPage : Nat) (words : List Nat) : Prog Sched Nat := do
  let kstackTop ← pushStores (add32 kstackPage 4096) words
  storeField t .kstack fun _ => kstackTop
  pure kstackTop

def newTaskStores (entry pageDir isUser : UInt32) : Prog Sched NewTask := do
  let t ← kmallocStores 28
  newRecordStores t taskReady pageDir.toNat
  let kstackPage ← kmallocStores 4096
  storeField t .kstackTopPage fun _ => add32 kstackPage 4096
  let user ← newUserStackStores t isUser
  let frame ← fillKernelStackStores t kstackPage (initialFrame entry isUser user.2)
  pure ⟨t, kstackPage, user.1, frame⟩

def lastLoopStores : (fuel : Nat) → (curr : Nat) → Prog Sched Nat
  | 0, _ => .stuck
  | fuel + 1, curr => do
    let next ← Prog.read fun s => (s.get curr .next, s.taskQueue)
    if next.1 ≠ next.2 then lastLoopStores fuel next.1 else pure curr

/-- The last task of the queue, if there is one. -/
def lastStores : Prog Sched (Option Nat) := do
  let queue ← Prog.read fun s => s.taskQueue
  if queue = 0 then pure none
  else do
    let curr ← lastLoopStores (2 ^ 32) queue
    pure (some curr)

/-- `task_create` in front of the stores that link the task in. -/
def prepareStores (entry pageDir isUser : UInt32) : Prog Sched (NewTask × Option Nat) := do
  let new ← newTaskStores entry pageDir isUser
  let last ← lastStores
  pure (new, last)

/-- These stores. Without a queue the task becomes its own successor. -/
def linkStores (t : Nat) : Option Nat → Prog Sched Nat
  | none => do
    storeField t .next fun _ => t
    Prog.write fun s => { s with taskQueue := t }
    pure t
  | some curr => do
    storeField curr .next fun _ => t
    storeField t .next fun s => s.taskQueue
    pure t

def taskCreateStores (entry pageDir isUser : UInt32) : Prog Sched Nat := do
  let r ← prepareStores entry pageDir isUser
  linkStores r.1.addr r.2

/-! ## The run without interrupts -/

section Run

variable {s : Sched} {size fuel curr : Nat}

@[simp] theorem storeMem_run (n a : Nat) (v : Sched → Nat) (s : Sched) :
    (storeMem n a v).run s = some (s.setMem (store s.heap.mem n a (v s)), ()) := rfl

@[simp] theorem storeField_run (t : Nat) (f : TaskField) (v : Sched → Nat) (s : Sched) :
    (storeField t f v).run s = some (s.set t f (v s), ()) := rfl

theorem takeBlockStores_run (curr size : Nat) (s : Sched) :
    (takeBlockStores curr size).run s =
      some (s.setHeap (s.heap.takeBlock curr size).1, (s.heap.takeBlock curr size).2) := by
  by_cases hlarge : s.heap.size curr > add32 (add32 size blockMetaSize) 4
  · simp only [takeBlockStores, splitStores, Prog.run_bind, Prog.run_read, hlarge, decide_true,
      Option.bind_some, if_true, storeMem_run, Prog.run_write, Prog.run_pure, Heap.takeBlock]
    rfl
  · simp only [takeBlockStores, splitStores, Prog.run_bind, Prog.run_read, hlarge, decide_false,
      Bool.false_eq_true, Option.bind_some, if_false, storeMem_run, Prog.run_write, Prog.run_pure,
      Heap.takeBlock]
    rfl

theorem kmallocLoopStores_run (size fuel curr : Nat) (s : Sched) :
    (kmallocLoopStores size fuel curr).run s =
      (Heap.kmallocLoop size fuel s.heap curr).map fun r => (s.setHeap r.1, r.2) := by
  induction fuel generalizing curr with
  | zero => rfl
  | succ fuel ih =>
    rw [kmallocLoopStores, Heap.kmallocLoop]
    by_cases hnull : curr = 0
    · rw [if_pos hnull, if_pos hnull]
      rfl
    · rw [if_neg hnull, if_neg hnull]
      by_cases hfits : s.heap.isFree curr ≠ 0 ∧ s.heap.size curr ≥ size
      · simp only [Prog.run_bind, Prog.run_read, hfits, decide_true, Option.bind_some, if_true,
          takeBlockStores_run, and_self, not_false_eq_true, ne_eq]
        rfl
      · simp only [Prog.run_bind, Prog.run_read, hfits, decide_false, Option.bind_some, if_false,
          Bool.false_eq_true, ih]

theorem kmallocStores_run (size : UInt32) (s : Sched) :
    (kmallocStores size).run s = (s.heap.kmalloc size).map fun r => (s.setHeap r.1, r.2) := by
  simp only [kmallocStores, Prog.run_bind, Prog.run_read, Option.bind_some, kmallocLoopStores_run,
    Heap.kmalloc]

/-- Setting bytes from the first one on. -/
theorem memset_succ (m : Nat → UInt8) (dest count : Nat) (val : UInt8) :
    memset m dest val (count + 1) = memset (store m 1 dest val.toNat) (dest + 1) val count := by
  funext p
  simp only [memset, store]
  by_cases hp : p = dest
  · subst hp
    rw [if_pos (by omega), if_neg (by omega), if_pos (by omega), Nat.sub_self]
    simp [byteOf]
  · by_cases hin : dest ≤ p ∧ p < dest + (count + 1)
    · rw [if_pos hin, if_pos (by omega)]
    · rw [if_neg hin, if_neg (by omega), if_neg (by omega)]

theorem storeBytes_cons (m : Nat → UInt8) (a : Nat) (b : UInt8) (bytes : List UInt8) :
    storeBytes m a (b :: bytes) = storeBytes (store m 1 a b.toNat) (a + 1) bytes := by
  funext p
  simp only [storeBytes, store, List.length_cons]
  by_cases hp : p = a
  · subst hp
    rw [if_pos (by omega), if_neg (by omega), if_pos (by omega), Nat.sub_self]
    simp [byteOf]
  · by_cases hin : a ≤ p ∧ p < a + (bytes.length + 1)
    · obtain ⟨i, hi⟩ : ∃ i, p - a = i + 1 := ⟨p - a - 1, by omega⟩
      have hi' : p - (a + 1) = i := by omega
      rw [if_pos hin, if_pos (by omega), hi, hi', List.getD_cons_succ]
    · rw [if_neg hin, if_neg (by omega), if_neg (by omega)]

theorem memsetStores_run (val : UInt8) (dest count : Nat) (s : Sched) :
    (memsetStores val dest count).run s =
      some (s.setMem (memset s.heap.mem dest val count), ()) := by
  induction count generalizing dest s with
  | zero =>
    have hnone : memset s.heap.mem dest val 0 = s.heap.mem := by
      funext p
      exact if_neg (by omega)
    rw [hnone]
    rfl
  | succ count ih =>
    simp only [memsetStores, Prog.run_bind, storeMem_run, Option.bind_some, ih, memset_succ]
    rfl

theorem bytesStores_run (a : Nat) (bytes : List UInt8) (s : Sched) :
    (bytesStores a bytes).run s = some (s.setMem (storeBytes s.heap.mem a bytes), ()) := by
  induction bytes generalizing a s with
  | nil =>
    have hnone : storeBytes s.heap.mem a [] = s.heap.mem := by
      funext p
      exact if_neg (by simp)
    rw [hnone]
    rfl
  | cons b bytes ih =>
    simp only [bytesStores, Prog.run_bind, storeMem_run, Option.bind_some, ih, storeBytes_cons]
    rfl

theorem pushAll_cons (m : Nat → UInt8) (top v : Nat) (words : List Nat) :
    Stack.pushAll 4 (m, top) (v :: words) =
      Stack.pushAll 4 (store m 4 (sub32 top 4) v, sub32 top 4) words := by
  have hsize : 256 ^ 4 = 2 ^ 32 := by norm_num
  have hpush : Stack.push 4 (m, top) v = (store m 4 (sub32 top 4) v, sub32 top 4) := by
    simp only [Stack.push, sub32, hsize]
  rw [← hpush, Stack.pushAll, List.foldl_cons, ← Stack.pushAll]

theorem pushStores_cons (top v : Nat) (words : List Nat) :
    pushStores top (v :: words) =
      storeMem 4 (sub32 top 4) (fun _ => v) >>= fun _ => pushStores (sub32 top 4) words := rfl

theorem pushStores_run (top : Nat) (words : List Nat) (s : Sched) :
    (pushStores top words).run s = some (s.setMem (Stack.pushAll 4 (s.heap.mem, top) words).1,
      (Stack.pushAll 4 (s.heap.mem, top) words).2) := by
  induction words generalizing top s with
  | nil => rfl
  | cons v words ih =>
    have hstep : ∀ top, (storeMem 4 top (fun _ => v) >>= fun _ => pushStores top words).run s =
        some (s.setMem (Stack.pushAll 4 (store s.heap.mem 4 top v, top) words).1,
          (Stack.pushAll 4 (store s.heap.mem 4 top v, top) words).2) := fun top => ih top _
    rw [pushAll_cons, pushStores_cons]
    exact hstep _

theorem newRecordStores_run (t state pageDirectory : Nat) (s : Sched) :
    (newRecordStores t state pageDirectory).run s =
      some (s.newRecord t state pageDirectory, ()) := by
  simp only [newRecordStores, Prog.run_bind, memsetStores_run, storeField_run, Prog.run_write,
    Option.bind_some, newRecord]

theorem newUserStackStores_run (t : Nat) (isUser : UInt32) (s : Sched) :
    (newUserStackStores t isUser).run s = s.newUserStack t isUser := by
  unfold newUserStackStores newUserStack
  by_cases huser : isUser ≠ 0
  · rw [if_pos huser, if_pos huser]
    simp only [Prog.run_bind, kmallocStores_run]
    cases s.heap.kmalloc 4096 with
    | none => rfl
    | some r =>
      simp only [Option.map_some, Option.bind_some, storeField_run, bytesStores_run,
        pushStores_run, Prog.run_pure, Option.bind_eq_bind, fillUserStack, Stack.pushAll,
        List.foldl_cons, List.foldl_nil]
  · rw [if_neg huser, if_neg huser]
    rfl

theorem fillKernelStackStores_run (t kstackPage : Nat) (words : List Nat) (s : Sched) :
    (fillKernelStackStores t kstackPage words).run s =
      some (s.fillKernelStack t kstackPage words) := by
  simp only [fillKernelStackStores, Prog.run_bind, pushStores_run, Option.bind_some,
    storeField_run, Prog.run_pure]
  rfl

theorem newTaskStores_run (entry pageDir isUser : UInt32) (s : Sched) :
    (newTaskStores entry pageDir isUser).run s = s.newTask entry pageDir isUser := by
  simp only [newTaskStores, newTask, Prog.run_bind, kmallocStores_run, Option.bind_eq_bind]
  cases s.heap.kmalloc 28 with
  | none => rfl
  | some r =>
    simp only [Option.map_some, Option.bind_some, newRecordStores_run]
    cases ((s.setHeap r.1).newRecord r.2 taskReady pageDir.toNat).heap.kmalloc 4096 with
    | none => rfl
    | some q =>
      simp only [Option.map_some, Option.bind_some, storeField_run, newUserStackStores_run]
      cases Sched.newUserStack _ r.2 isUser with
      | none => rfl
      | some u =>
        simp only [Option.bind_some, fillKernelStackStores_run, Prog.run_pure]

theorem lastLoopStores_run (fuel curr : Nat) (s : Sched) :
    (lastLoopStores fuel curr).run s = (s.lastLoop fuel curr).map fun c => (s, c) := by
  induction fuel generalizing curr with
  | zero => rfl
  | succ fuel ih =>
    rw [lastLoopStores, lastLoop]
    by_cases hlast : s.get curr .next ≠ s.taskQueue
    · simp only [Prog.run_bind, Prog.run_read, Option.bind_some, if_pos hlast, ih]
    · simp only [Prog.run_bind, Prog.run_read, Option.bind_some, if_neg hlast]
      rfl

/-- Without interrupts the stores are `task_create`. -/
theorem taskCreateStores_run (entry pageDir isUser : UInt32) (s : Sched) :
    (taskCreateStores entry pageDir isUser).run s = s.taskCreate entry pageDir isUser := by
  simp only [taskCreateStores, prepareStores, taskCreate, Prog.run_bind, newTaskStores_run,
    Option.bind_eq_bind]
  cases s.newTask entry pageDir isUser with
  | none => rfl
  | some r =>
    obtain ⟨s, new⟩ := r
    simp only [Option.bind_some, lastStores, Prog.run_bind, Prog.run_read, enqueue]
    by_cases hqueue : s.taskQueue = 0
    · rw [if_pos hqueue, if_pos hqueue]
      rfl
    · rw [if_neg hqueue, if_neg hqueue]
      simp only [Prog.run_bind, lastLoopStores_run, Option.bind_eq_bind]
      cases s.lastLoop (2 ^ 32) s.taskQueue with
      | none => rfl
      | some curr => rfl

end Run

end Sched

end Newrex
