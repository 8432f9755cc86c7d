import Newrex.Heap.Basic
import Newrex.Lib.Stack

/-!
# The scheduler

The embedding of `kernel/sched.c`, of the end of the interrupt gateways in
`boot/boot.asm` and of `set_kernel_stack` of `hal/gdt.c`. Task records and stacks
live in memory, in blocks that `kmalloc` returns, and the ring of tasks is linked
by the `next` fields of the records.

The two loops over the ring take as fuel the number of 32-bit addresses; `none`
means that the loop does not end.
-/

namespace Newrex

open LittleEndian

def taskRunning : Nat := 0
def taskReady : Nat := 1
def taskSuspended : Nat := 2

/-- `sizeof(struct task_struct)`. -/
def taskStructSize : Nat := 28

/-- The fields of the packed `struct task_struct`. -/
inductive TaskField
  | pid
  | state
  | pageDirectory
  | kstack
  | kstackTopPage
  | ustack
  | next
deriving DecidableEq, Repr

def TaskField.offset : TaskField → Nat
  | .pid => 0
  | .state => 4
  | .pageDirectory => 8
  | .kstack => 12
  | .kstackTopPage => 16
  | .ustack => 20
  | .next => 24

/-- The variables of the scheduler, the registers and the field `esp0` of the TSS that
it sets, and the memory. -/
structure Sched where
  heap : Heap
  currentTask : Nat
  taskQueue : Nat
  nextPid : Nat
  schedulerActive : Bool
  tssEsp0 : Nat
  cr3 : Nat
  console : List Print

namespace Sched

/-! ## Task records -/

/-- The field `f` of the task at `t`. -/
def get (s : Sched) (t : Nat) (f : TaskField) : Nat := load s.heap.mem 4 (t + f.offset)

def setHeap (s : Sched) (heap : Heap) : Sched := { s with heap }

def setCurrentTask (s : Sched) (t : Nat) : Sched := { s with currentTask := t }

def setMem (s : Sched) (mem : Nat → UInt8) : Sched := s.setHeap { s.heap with mem }

def set (s : Sched) (t : Nat) (f : TaskField) (v : Nat) : Sched :=
  s.setMem (store s.heap.mem 4 (t + f.offset) v)

/-! ## Creating tasks -/

/-- The start of a task record, in `init_scheduler` and `task_create`. -/
def newRecord (s : Sched) (t state pageDirectory : Nat) : Sched :=
  let s := s.setMem (memset s.heap.mem t 0 taskStructSize)
  let s := s.set t .pid s.nextPid
  let s := { s with nextPid := add32 s.nextPid 1 }
  let s := s.set t .state state
  s.set t .pageDirectory pageDirectory

/-- `init_scheduler`, where `stackSpace` is the address of `stack_space`. -/
def initScheduler (s : Sched) (stackSpace : Nat) : Option Sched := do
  let (heap, t) ← s.heap.kmalloc 28
  let s := (s.setHeap heap).setCurrentTask t
  let s := s.newRecord t taskRunning s.cr3
  let s := s.set t .kstackTopPage (add32 stackSpace 8192)
  let s := s.set t .next t
  some { s with taskQueue := t, schedulerActive := true }

/-- The pointers of a task under construction: what the three calls of `kmalloc`
returned, and where the frame for its first run starts. `ustackPage` is 0 for a
kernel task, which has none. -/
structure NewTask where
  addr : Nat
  kstackPage : Nat
  ustackPage : Nat
  frame : Nat
deriving DecidableEq, Repr

/-- The exit trampoline: `mov eax, 1` and `int 0x80`. -/
def exitTrampoline : List UInt8 := [0xB8, 0x01, 0x00, 0x00, 0x00, 0xCD, 0x80]

/-- The words pushed on the kernel stack of a new task: the interrupt frame with SS and
ESP for a user task, EFLAGS, CS and EIP; the registers of `pushad` from EAX to EDI;
and the segments from DS to GS. -/
def initialFrame (entry isUser : UInt32) (ustackTop : Nat) : List Nat :=
  let dataSel := if isUser ≠ 0 then 0x23 else 0x10
  (if isUser ≠ 0 then [0x23, ustackTop, 0x202, 0x1B, entry.toNat]
    else [0x202, 0x08, entry.toNat]) ++
  [0, 0, 0, 0, 0, 0, 0, 0] ++ [dataSel, dataSel, dataSel, dataSel]

/-- The user stack of a new task: the trampoline at the base of the page, and its
address on top of the stack. The result holds the top of the stack. -/
def fillUserStack (s : Sched) (t ustackPage : Nat) : Sched × Nat :=
  let ustackTop := add32 ustackPage 4096
  let s := s.set t .ustack ustackTop
  let s := s.setMem (storeBytes s.heap.mem ustackPage exitTrampoline)
  let (mem, ustackTop) := Stack.push 4 (s.heap.mem, ustackTop) ustackPage
  (s.setMem mem, ustackTop)

/-- The kernel stack of a new task. The result holds the top of the stack. -/
def fillKernelStack (s : Sched) (t kstackPage : Nat) (words : List Nat) : Sched × Nat :=
  let (mem, kstackTop) := Stack.pushAll 4 (s.heap.mem, add32 kstackPage 4096) words
  ((s.setMem mem).set t .kstack kstackTop, kstackTop)

/-- The branch of `task_create` on `is_user`: the page and the top of the user stack. -/
def newUserStack (s : Sched) (t : Nat) (isUser : UInt32) : Option (Sched × Nat × Nat) :=
  if isUser ≠ 0 then do
    let (heap, ustackPage) ← s.heap.kmalloc 4096
    let (s, ustackTop) := (s.setHeap heap).fillUserStack t ustackPage
    some (s, ustackPage, ustackTop)
  else some (s.set t .ustack 0, 0, 0)

/-- The part of `task_create` in front of the queue: the record and the stacks. -/
def newTask (s : Sched) (entry pageDir isUser : UInt32) : Option (Sched × NewTask) := do
  let (heap, t) ← s.heap.kmalloc 28
  let s := (s.setHeap heap).newRecord t taskReady pageDir.toNat
  let (heap, kstackPage) ← s.heap.kmalloc 4096
  let s := (s.setHeap heap).set t .kstackTopPage (add32 kstackPage 4096)
  let (s, ustackPage, ustackTop) ← s.newUserStack t isUser
  let (s, frame) := s.fillKernelStack t kstackPage (initialFrame entry isUser ustackTop)
  some (s, ⟨t, kstackPage, ustackPage, frame⟩)

/-- The loop of `task_create`: the task whose successor is the head of the queue. -/
def lastLoop (s : Sched) : (fuel : Nat) → (curr : Nat) → Option Nat
  | 0, _ => none
  | fuel + 1, curr =>
    if s.get curr .next ≠ s.taskQueue then lastLoop s fuel (s.get curr .next) else some curr

/-- The end of `task_create`. -/
def enqueue (s : Sched) (t : Nat) : Option Sched :=
  if s.taskQueue = 0 then some { s.set t .next t with taskQueue := t }
  else do
    let curr ← s.lastLoop (2 ^ 32) s.taskQueue
    let s := s.set curr .next t
    some (s.set t .next s.taskQueue)

/-- `task_create`. -/
def taskCreate (s : Sched) (entry pageDir isUser : UInt32) : Option (Sched × Nat) := do
  let (s, new) ← s.newTask entry pageDir isUser
  let s ← s.enqueue new.addr
  some (s, new.addr)

/-! ## Switching -/

/-- The task may be given the CPU. -/
def runnable (s : Sched) (t : Nat) : Bool :=
  s.get t .state == taskReady || s.get t .state == taskRunning

/-- The loop of `task_switch`. Whether the search is back at the current task is tested
after each move only. -/
def searchLoop (s : Sched) : (fuel : Nat) → (next : Nat) → Option Nat
  | 0, _ => none
  | fuel + 1, next =>
    if s.runnable next then some next
    else
      let next := s.get next .next
      if next = s.currentTask then some next else searchLoop s fuel next

/-- `mov cr3`, when the current task has a page directory of its own. -/
def loadPageDirectory (s : Sched) : Sched :=
  if s.get s.currentTask .pageDirectory ≠ 0 ∧ s.get s.currentTask .pageDirectory ≠ s.cr3 then
    { s with cr3 := s.get s.currentTask .pageDirectory }
  else s

/-- The end of `task_switch`: the CPU is given to `next`. -/
def dispatch (s : Sched) (next : Nat) : Sched :=
  let s :=
    if s.get s.currentTask .state = taskRunning then s.set s.currentTask .state taskReady else s
  let s := s.setCurrentTask next
  let s := s.set s.currentTask .state taskRunning
  let s := { s with tssEsp0 := s.get s.currentTask .kstackTopPage }
  s.loadPageDirectory

/-- `task_switch`: the state afterwards and the stack pointer returned. -/
def taskSwitch (s : Sched) (esp : Nat) : Option (Sched × Nat) :=
  if s.schedulerActive = false ∨ s.currentTask = 0 then some (s, esp)
  else do
    let s := s.set s.currentTask .kstack esp
    let next ← s.searchLoop (2 ^ 32) (s.get s.currentTask .next)
    let s := s.dispatch next
    some (s, s.get s.currentTask .kstack)

/-- The characters of the C string at `str`; `none` when no NUL is found. -/
def stringLoop (mem : Nat → UInt8) : (fuel : Nat) → (str : Nat) → Option (List UInt8)
  | 0, _ => none
  | fuel + 1, str =>
    if mem str = 0 then some []
    else do
      let rest ← stringLoop mem fuel (add32 str 1)
      some (mem str :: rest)

/-- The fields `eax` and `ebx` of the `interrupt_frame` at `esp`. -/
def frameEax (s : Sched) (esp : Nat) : Nat := load s.heap.mem 4 (add32 esp 44)
def frameEbx (s : Sched) (esp : Nat) : Nat := load s.heap.mem 4 (add32 esp 32)

/-- `syscall_handler`. -/
def syscallHandler (s : Sched) (esp : Nat) : Option (Sched × Nat) :=
  if s.frameEax esp = 1 then (s.set s.currentTask .state taskSuspended).taskSwitch esp
  else if s.frameEax esp = 2 then do
    let text ← stringLoop s.heap.mem (2 ^ 32) (s.frameEbx esp)
    some ({ s with console := s.console ++ [.string text colorWhite] }, esp)
  else if s.frameEax esp = 3 then s.taskSwitch esp
  else some (s, esp)

/-! ## Returning from an interrupt -/

/-- The words that the end of an interrupt gateway pops into the registers. `userStack`
are ESP and SS, which `iretd` pops only on the way to an outer ring. -/
structure Context where
  gs : Nat
  fs : Nat
  es : Nat
  ds : Nat
  edi : Nat
  esi : Nat
  ebp : Nat
  ebx : Nat
  edx : Nat
  ecx : Nat
  eax : Nat
  eip : Nat
  cs : Nat
  eflags : Nat
  userStack : Option (Nat × Nat)
deriving DecidableEq, Repr

/-- A pop: the word at `esp`, and `esp` afterwards. -/
def pop (mem : Nat → UInt8) : StateM Nat Nat := fun esp => (load mem 4 esp, add32 esp 4)

/-- The end of `timer_isr_asm` and `syscall_isr_asm`: `pop gs`, `pop fs`, `pop es`,
`pop ds`, `popad` (which drops the saved ESP) and `iretd`. -/
def isrEpilogue (mem : Nat → UInt8) : StateM Nat Context := do
  let gs ← pop mem
  let fs ← pop mem
  let es ← pop mem
  let ds ← pop mem
  let edi ← pop mem
  let esi ← pop mem
  let ebp ← pop mem
  let _ ← pop mem
  let ebx ← pop mem
  let edx ← pop mem
  let ecx ← pop mem
  let eax ← pop mem
  let eip ← pop mem
  let cs ← pop mem
  let eflags ← pop mem
  -- the gateway runs in ring 0; the low bits of CS are the ring it returns to
  let userStack ← if cs % 4 ≠ 0 then do
      let esp ← pop mem
      let ss ← pop mem
      pure (some (esp, ss))
    else pure none
  pure { gs, fs, es, ds, edi, esi, ebp, ebx, edx, ecx, eax, eip, cs, eflags, userStack }

end Sched

end Newrex
