import Newrex.Exec.Load

/-!
# What a program leaves behind

A complete call of `rexfs_exec`: the file is loaded, the task created, the kernel waits while
the tasks run, the task exits, and the call returns. `Executes` is one such call and `ExecRun`
any number of them.

`rexfs_exec` frees the buffer of the image. The record and the two stacks of the task stay
allocated, and the task stays in the ring (`Executes.effect`). `exec_run_leaks` is the result
for all runs.
-/

namespace Newrex

open LittleEndian RexFS

/-! ## Calls -/

/-- What happens while `rexfs_exec` waits: timer ticks, system calls, and stores of the
tasks. -/
def SchedAction.WhileWaiting : SchedAction → Prop
  | .tick _ | .syscall _ | .other (.write _ _) => True
  | _ => False

/-- The tasks run from `s` to `s'`. -/
inductive Waits (kernelHeap : KernelHeap) : SchedState → SchedState → Prop
  | refl (s : SchedState) : Waits kernelHeap s s
  | step {s s' : SchedState} {action : SchedAction} : Waits kernelHeap s s' →
      action.WhileWaiting → s'.Allowed kernelHeap action → Waits kernelHeap s (s'.step action)

/-- The history of `T` when the image is in memory. -/
def Tasking.loaded (T : Tasking) (k : Kernel) (image : Image) : Tasking :=
  T.withHeap k.sched.heap ([(image.codeBuffer, image.size.toNat)] ++ T.live)

/-- One call of `rexfs_exec`, on any file system, for a program that ends by the exit system
call. -/
inductive Executes (kernelHeap : KernelHeap) (stackSpace : Nat) (T : Tasking) : SchedState → Prop
  | call {fs : RexFS} {filename : CString} {k1 k2 k3 : Kernel} {image : Image} {t : Nat}
      {s s' : SchedState} :
      Kernel.execLoad ⟨fs, T.sched⟩ filename = some (k1, some image) →
      k1.StartMemory image stackSpace →
      k1.execStart image stackSpace = some (k2, some t) →
      (T.loaded k1 image).activated stackSpace = some s →
      Waits kernelHeap (s.step (.create (k1.entryAddr image) 0 1)) s' →
      t ∈ s'.exited →
      Kernel.execReturn ⟨k2.fs, s'.sched⟩ image = some k3 →
      Executes kernelHeap stackSpace T
        { s' with sched := k3.sched, live := s'.live.filter (·.1 ≠ image.codeBuffer) }

/-- A sequence of `n` calls. -/
inductive ExecRun (kernelHeap : KernelHeap) (stackSpace : Nat) (T : Tasking) : Nat → Tasking → Prop
  | nil : ExecRun kernelHeap stackSpace T 0 T
  | snoc {n : Nat} {T' : Tasking} {s : SchedState} : ExecRun kernelHeap stackSpace T n T' →
      Executes kernelHeap stackSpace T' s → ExecRun kernelHeap stackSpace T (n + 1) (.running s)

/-! ## Waiting -/

section Waiting

variable {kernelHeap : KernelHeap} {s s' : SchedState} {action : SchedAction}

/-- Waiting neither allocates nor frees, and creates no task. -/
theorem SchedAction.WhileWaiting.history (h : action.WhileWaiting) (s : SchedState) :
    (s.step action).live = s.live ∧ (s.step action).created = s.created := by
  cases action with
  | create _ _ _ => exact absurd h id
  | tick esp =>
    simp only [SchedState.step]
    split
    · exact ⟨rfl, rfl⟩
    · exact ⟨rfl, rfl⟩
  | syscall esp =>
    simp only [SchedState.step]
    split
    · exact ⟨rfl, rfl⟩
    · exact ⟨rfl, rfl⟩
  | other action =>
    cases action with
    | write _ _ => exact ⟨rfl, rfl⟩
    | _ => exact absurd h id

theorem Waits.effect (h : Waits kernelHeap s s') (hring : RingInv kernelHeap s) :
    RingInv kernelHeap s' ∧ s'.live = s.live ∧ s'.created = s.created ∧ s'.idle = s.idle ∧
      ∀ t, t ∈ s.exited → t ∈ s'.exited := by
  induction h with
  | refl => exact ⟨hring, rfl, rfl, rfl, fun _ ht => ht⟩
  | @step s' action _ hwait hallowed ih =>
    obtain ⟨hring', hlive, hcreated, hidle, hexited⟩ := ih
    obtain ⟨hl, hc⟩ := hwait.history s'
    exact ⟨hring'.keep hallowed, hl.trans hlive, hc.trans hcreated, (s'.step_idle _).trans hidle,
      fun t ht => s'.step_exited action (hexited t ht)⟩

end Waiting

/-! ## Returning -/

section Returning

variable {kernelHeap : KernelHeap} {s : SchedState} {image : Image}

/-- `kfree(code_buffer)` is a step of the history: the buffer is no block of a task. -/
theorem execReturn_effect (hring : RingInv kernelHeap s) {n : Nat}
    (hlive : (image.codeBuffer, n) ∈ s.live)
    (hother : ∀ b, b ∈ s.blocks → b.1 ≠ image.codeBuffer) (fs : RexFS) {k : Kernel}
    (hreturn : Kernel.execReturn ⟨fs, s.sched⟩ image = some k) :
    RingInv kernelHeap
      { s with sched := k.sched, live := s.live.filter (·.1 ≠ image.codeBuffer) } := by
  simp only [Kernel.execReturn, Kernel.freeBuffer, Option.bind_eq_bind,
    Option.bind_eq_some_iff] at hreturn
  obtain ⟨heap, hfree, hk⟩ := hreturn
  have hfree' : s.sched.heap.kfree image.codeBuffer = some heap := hfree
  have hallowed : s.Allowed kernelHeap (.other (.kfree image.codeBuffer)) := by
    refine ⟨Or.inr ⟨n, hlive⟩, ?_, fun _ _ h => by cases h⟩
    intro p m hp heq
    cases heq
    exact hother _ hp rfl
  have hstep := hring.keep hallowed
  simp only [SchedState.step, HeapState.step, SchedState.heapState, hfree'] at hstep
  rw [← Option.some.inj hk]
  exact hstep

end Returning

/-! ## What is left -/

namespace Tasking

/-- The heap block of PID 0, once there is one. -/
def idleRecord : Tasking → List (Nat × Nat)
  | boot _ _ _ _ => []
  | running s => [(s.idle, taskStructSize)]

/-- The tasks that have exited. -/
def exited : Tasking → List Nat
  | boot _ _ _ _ => []
  | running s => s.exited

/-- `init_scheduler` allocates the record of PID 0 and nothing else. -/
theorem activated_live {T : Tasking} {stackSpace : Nat} {s : SchedState}
    (h : T.activated stackSpace = some s) :
    (s.live ++ T.idleRecord).Perm ((s.idle, taskStructSize) :: T.live) ∧
      (∀ b, b ∈ T.live → b ∈ s.live) ∧ (∀ t, t ∈ T.exited → t ∈ s.exited) ∧
      (T.idleRecord = [] ∨ T.idleRecord = [(s.idle, taskStructSize)]) := by
  cases T with
  | boot hs tssEsp0 cr3 console =>
    simp only [activated, Option.bind_eq_bind, Option.bind_eq_some_iff] at h
    obtain ⟨sched, _, h⟩ := h
    cases h
    refine ⟨?_, fun _ hb => List.mem_cons_of_mem _ hb, fun _ ht => absurd ht List.not_mem_nil,
      Or.inl rfl⟩
    show ((sched.currentTask, taskStructSize) :: hs.live ++ []).Perm _
    rw [List.append_nil]
    exact List.Perm.refl _
  | running s' =>
    cases h
    exact ⟨List.perm_append_comm, fun _ hb => hb, fun _ ht => ht, Or.inr rfl⟩

/-- The record of PID 0 is allocated. -/
theorem idleRecord_live {kernelHeap : KernelHeap} (T : Tasking) (h : T.Inv kernelHeap)
    (b : Nat × Nat) : T.idleRecord.count b ≤ T.live.count b := by
  cases T with
  | boot _ _ _ _ => exact Nat.zero_le _
  | running s =>
    have hsub : [(s.idle, taskStructSize)].Sublist s.live :=
      List.singleton_sublist.mpr (RingInv.owned h _ List.mem_cons_self)
    exact hsub.count_le b

@[simp] theorem loaded_live (T : Tasking) (k : Kernel) (image : Image) :
    (T.loaded k image).live = (image.codeBuffer, image.size.toNat) :: T.live :=
  withHeap_live _ _ _

theorem loaded_history (T : Tasking) (k : Kernel) (image : Image) :
    (T.loaded k image).idleRecord = T.idleRecord ∧ (T.loaded k image).exited = T.exited := by
  cases T with
  | boot _ _ _ _ => exact ⟨rfl, rfl⟩
  | running _ => exact ⟨rfl, rfl⟩

/-- The buffer of the image is no block of a task. -/
theorem loaded_blocks {kernelHeap : KernelHeap} {T : Tasking} (hT : T.Inv kernelHeap) {k : Kernel}
    {image : Image} {stackSpace : Nat} {s : SchedState}
    (hs : (T.loaded k image).activated stackSpace = some s) (hring : RingInv kernelHeap s) :
    ∀ b, b ∈ s.blocks → b.1 ≠ image.codeBuffer := by
  obtain ⟨bs, hheap⟩ := hring.heap
  have hnodup := hheap.nodup
  cases T with
  | boot hs0 tssEsp0 cr3 console =>
    simp only [loaded, withHeap, activated, Option.bind_eq_bind, Option.bind_eq_some_iff] at hs
    obtain ⟨sched, _, hs⟩ := hs
    cases hs
    intro b hb heq
    rw [List.mem_singleton.mp hb] at heq
    exact (List.nodup_cons.mp hnodup).1 (List.mem_map.mpr ⟨_, List.mem_cons_self, heq.symm⟩)
  | running s0 =>
    cases hs
    intro b hb heq
    have hold : b ∈ s0.live := RingInv.owned hT b hb
    exact (List.nodup_cons.mp hnodup).1 (List.mem_map.mpr ⟨b, hold, heq⟩)

end Tasking

/-- Freeing a pointer takes its allocation away, and no other. -/
theorem filter_live_perm {live rest : List (Nat × Nat)} {p n : Nat}
    (hperm : live.Perm ((p, n) :: rest)) (hnodup : (live.map Prod.fst).Nodup) :
    (live.filter (·.1 ≠ p)).Perm rest := by
  have hfilter := hperm.filter (·.1 ≠ p)
  have hnodup' := (hperm.map Prod.fst).nodup_iff.mp hnodup
  have hrest : rest.filter (·.1 ≠ p) = rest := by
    refine List.filter_eq_self.mpr fun b hb => ?_
    have hne : b.1 ≠ p := fun heq =>
      (List.nodup_cons.mp hnodup').1 (List.mem_map.mpr ⟨b, hb, heq⟩)
    simpa using hne
  rw [List.filter_cons_of_neg (by simp), hrest] at hfilter
  exact hfilter

/-- A call keeps the invariant. It leaves the three blocks of its task allocated, next to what
was allocated before, and the task in the ring. -/
theorem Executes.effect {kernelHeap : KernelHeap} {stackSpace : Nat} {T : Tasking} {s : SchedState}
    (hT : T.Inv kernelHeap) (h : Executes kernelHeap stackSpace T s) :
    RingInv kernelHeap s ∧ (∀ t, t ∈ T.exited → t ∈ s.exited) ∧
      (T.idleRecord = [] ∨ T.idleRecord = [(s.idle, taskStructSize)]) ∧
      ∃ c : CreatedTask, c.isUser = 1 ∧ c.new.addr ∈ s.exited ∧
        (s.live ++ T.idleRecord).Perm (c.blocks ++ (s.idle, taskStructSize) :: T.live) := by
  obtain ⟨hload, hmem, hstart, hactivated, hwaits, hexited, hreturn⟩ := h
  rename_i fs filename k1 k2 k3 image t s0 s'
  obtain ⟨hinv, hsched, _⟩ := execLoad_effect hT rfl hload
  rw [← Tasking.withHeap_sched] at hsched
  have haccepts : k1.Accepts image := by
    obtain ⟨task, k2', hstart', hiff, _⟩ := execLoad_start hT rfl hload hmem
    obtain ⟨_, rfl⟩ := Prod.mk.inj (Option.some.inj (hstart'.symm.trans hstart))
    exact hiff.mp rfl
  obtain ⟨s1, hs1, hring, ⟨sched', new', hnew', hok⟩, sched, new, hnew, heq⟩ :=
    execStart_effect hinv hsched haccepts hmem
  obtain ⟨rfl, rfl⟩ := Prod.mk.inj (Option.some.inj (hnew.symm.trans hnew'))
  obtain rfl : s1 = s0 := Option.some.inj (hs1.symm.trans hactivated)
  obtain rfl : new.addr = t := by
    have := (Prod.mk.inj (Option.some.inj (heq.symm.trans hstart))).2
    exact Option.some.inj this
  obtain ⟨hcreated, hlive, _⟩ := ContextInv.create_new hring hnew hok
  have hringc := hring.create ⟨sched, new, hnew, hok⟩
  obtain ⟨hring', hlive', hcreated', hidle', hexited'⟩ := hwaits.effect hringc
  obtain ⟨hperm, hkeep, hold, hrecord⟩ := Tasking.activated_live hactivated
  obtain ⟨hrecord0, hexit0⟩ := T.loaded_history k1 image
  rw [hrecord0, Tasking.loaded_live] at hperm
  rw [hexit0] at hold
  rw [hrecord0] at hrecord
  have hidle : s'.idle = s1.idle := hidle'.trans (SchedState.step_idle s1 _)
  -- the buffer is still allocated, and it is freed now
  have hbuffer : (image.codeBuffer, image.size.toNat) ∈ s1.live :=
    hkeep _ (by rw [Tasking.loaded_live]; exact List.mem_cons_self)
  have hlive2 : s'.live = CreatedTask.blocks ⟨new, k1.entryAddr image, 1⟩ ++ s1.live :=
    hlive'.trans hlive
  have hbuffer' : (image.codeBuffer, image.size.toNat) ∈ s'.live := by
    rw [hlive2]
    exact List.mem_append_right _ hbuffer
  obtain ⟨bs, hheap⟩ := hring'.heap
  have hnodup : (s'.live.map Prod.fst).Nodup := hheap.nodup
  have hother : ∀ b, b ∈ s'.blocks → b.1 ≠ image.codeBuffer := by
    intro b hb
    rw [SchedState.blocks, hcreated', hcreated, hidle, List.flatMap_append] at hb
    rcases List.mem_cons.mp hb with rfl | hb
    · exact Tasking.loaded_blocks hT hactivated hring _ List.mem_cons_self
    · rcases List.mem_append.mp hb with hb | hb
      · exact Tasking.loaded_blocks hT hactivated hring b (List.mem_cons_of_mem _ hb)
      · rw [hlive2, List.map_append] at hnodup
        rw [List.flatMap_singleton] at hb
        exact (List.nodup_append.mp hnodup).2.2 _ (List.mem_map_of_mem hb) _
          (List.mem_map_of_mem hbuffer)
  refine ⟨execReturn_effect hring' hbuffer' hother k2.fs hreturn,
    fun t ht => hexited' t (s1.step_exited _ (hold t ht)), by rw [hidle]; exact hrecord,
    ⟨new, k1.entryAddr image, 1⟩, rfl, hexited, ?_⟩
  have herase := List.perm_cons_erase hbuffer'
  have hfilter := filter_live_perm herase hnodup
  show ((s'.live.filter (·.1 ≠ image.codeBuffer)) ++ T.idleRecord).Perm _
  rw [hidle]
  refine (hfilter.append_right _).trans ?_
  rw [hlive2] at herase ⊢
  rw [List.perm_iff_count] at hperm herase ⊢
  intro a
  have hp := hperm a
  have he := herase a
  simp only [List.count_append, List.count_cons] at hp he ⊢
  omega

/-- `exec` gave its memory back between `T` and `T'`: apart from the record of PID 0 the same
allocations are live, and every task of the ring can be given the CPU. -/
def GivesBack (T T' : Tasking) : Prop :=
  (∀ b, b ∉ T'.idleRecord → (b ∈ T'.live ↔ b ∈ T.live)) ∧
    ∀ t, t ∈ T'.tasks → T'.sched.runnable t = true

/-- The heap that one program keeps: a record and two stacks, with their headers. -/
def leakSize : Nat :=
  (taskStructSize + blockMetaSize) + (4096 + blockMetaSize) + (4096 + blockMetaSize)

/-- The size of allocations with their headers. -/
def heapUse (live : List (Nat × Nat)) : Nat := (live.map fun b => b.2 + blockMetaSize).sum

theorem heapUse_append (as bs : List (Nat × Nat)) :
    heapUse (as ++ bs) = heapUse as + heapUse bs := by
  rw [heapUse, List.map_append, List.sum_append]
  rfl

theorem heapUse_blocks {c : CreatedTask} (h : c.isUser = 1) : heapUse c.blocks = leakSize := by
  simp [heapUse, CreatedTask.blocks, h, leakSize, blockMetaSize, taskStructSize]

section Runs

variable {kernelHeap : KernelHeap} {stackSpace n : Nat} {T T' : Tasking}

/-- After `n` calls there are `n` tasks that exited, with all their blocks. -/
theorem ExecRun.effect (hT : T.Inv kernelHeap) (h : ExecRun kernelHeap stackSpace T n T') :
    T'.Inv kernelHeap ∧ (T.idleRecord = [] ∨ T.idleRecord = T'.idleRecord) ∧
      ∃ cs : List CreatedTask, cs.length = n ∧
        (∀ c, c ∈ cs → c.isUser = 1 ∧ c.new.addr ∈ T'.exited) ∧
        (T'.live ++ T.idleRecord).Perm
          (cs.flatMap CreatedTask.blocks ++ T'.idleRecord ++ T.live) := by
  induction h with
  | nil =>
    refine ⟨hT, Or.inr rfl, [], rfl, fun c hc => absurd hc List.not_mem_nil, ?_⟩
    exact List.perm_append_comm
  | @snoc n T' s _ hcall ih =>
    obtain ⟨hinv, hrecord, cs, hlen, hcs, hperm⟩ := ih
    obtain ⟨hring, hexited, hrecord', c, huser, hc, hperm'⟩ := hcall.effect hinv
    refine ⟨hring, ?_, cs ++ [c], ?_, ?_, ?_⟩
    · rcases hrecord with hnone | hsame
      · exact Or.inl hnone
      · rw [hsame]
        exact hrecord'
    · rw [List.length_append, hlen]
      rfl
    · intro d hd
      rcases List.mem_append.mp hd with hd | hd
      · exact ⟨(hcs d hd).1, hexited _ (hcs d hd).2⟩
      · rw [List.mem_singleton.mp hd]
        exact ⟨huser, hc⟩
    · rw [List.perm_iff_count] at hperm hperm' ⊢
      intro a
      have h1 := hperm a
      have h2 := hperm' a
      have hlive : (Tasking.running s).live = s.live := rfl
      have hrecord : (Tasking.running s).idleRecord = [(s.idle, taskStructSize)] := rfl
      rw [List.flatMap_append, List.flatMap_singleton, hlive, hrecord]
      simp only [List.count_append, List.count_cons, List.count_nil] at h1 h2 ⊢
      omega

/-- The programs of a session all have their place in the heap. -/
theorem ExecRun.bound (hT : T.Inv kernelHeap) (h : ExecRun kernelHeap stackSpace T n T') :
    n * leakSize ≤ heapSize := by
  obtain ⟨hinv, hrecord, cs, hlen, hcs, hperm⟩ := h.effect hT
  have huse : ∀ l : List CreatedTask, (∀ c, c ∈ l → c.isUser = 1) →
      heapUse (l.flatMap CreatedTask.blocks) = l.length * leakSize := by
    intro l hl
    induction l with
    | nil => exact (Nat.zero_mul _).symm
    | cons c l ih =>
      rw [List.flatMap_cons, heapUse_append, heapUse_blocks (hl c List.mem_cons_self),
        ih fun d hd => hl d (List.mem_cons_of_mem _ hd), List.length_cons, Nat.succ_mul,
        Nat.add_comm]
  have hsum := (hperm.map fun b => b.2 + blockMetaSize).sum_eq
  change heapUse (T'.live ++ T.idleRecord) = heapUse (_ ++ T'.idleRecord ++ T.live) at hsum
  rw [heapUse_append, heapUse_append, heapUse_append, huse cs fun c hc => (hcs c hc).1, hlen]
    at hsum
  obtain ⟨bs, hheap⟩ := hinv.heapInv
  have hmax : heapUse T'.live ≤ heapSize := hheap.live_sum_le
  have hle : heapUse T.idleRecord ≤ heapUse T'.idleRecord := by
    rcases hrecord with hnone | hsame
    · rw [hnone]
      exact Nat.zero_le _
    · rw [hsame]
  omega

/-- The record of a program that exited: an allocation that there was not before. -/
theorem leaked_block (hT : T.Inv kernelHeap) (hT' : T'.Inv kernelHeap)
    (hrecord : T.idleRecord = [] ∨ T.idleRecord = T'.idleRecord) {cs : List CreatedTask}
    (hperm : (T'.live ++ T.idleRecord).Perm
      (cs.flatMap CreatedTask.blocks ++ T'.idleRecord ++ T.live)) {c : CreatedTask} (hc : c ∈ cs) :
    (c.new.addr, taskStructSize) ∉ T'.idleRecord ∧ (c.new.addr, taskStructSize) ∈ T'.live ∧
      (c.new.addr, taskStructSize) ∉ T.live := by
  obtain ⟨bs, hheap⟩ := hT'.heapInv
  have honce : T'.live.count (c.new.addr, taskStructSize) ≤ 1 :=
    List.nodup_iff_count_le_one.mp (List.Nodup.of_map _ hheap.nodup) _
  have hleak : 0 < (cs.flatMap CreatedTask.blocks).count (c.new.addr, taskStructSize) :=
    List.count_pos_iff.mpr (List.mem_flatMap.mpr ⟨c, hc, by simp [CreatedTask.blocks]⟩)
  have hsub := T.idleRecord_live hT (c.new.addr, taskStructSize)
  have hcount := List.perm_iff_count.mp hperm (c.new.addr, taskStructSize)
  simp only [List.count_append] at hcount
  rw [← List.count_eq_zero, ← List.count_eq_zero, ← List.count_pos_iff]
  rcases hrecord with hnone | hsame
  · rw [hnone, List.count_nil] at hcount
    omega
  · rw [hsame] at hcount hsub
    omega

/-- `exec` does not give its memory back. From every state of the heap and the scheduler, before
or after `init_scheduler`, and after every sequence of at least one call for programs that end
by the exit system call:
* each call has left the record, the kernel stack and the user stack of its task allocated, and
  they were not allocated before;
* the tasks are in the ring and can not run;
* so that the number of programs of a session is bounded by the size of the heap. -/
theorem exec_run_leaks (hT : T.Reachable kernelHeap)
    (h : ExecRun kernelHeap stackSpace T (n + 1) T') :
    (∃ cs : List CreatedTask, cs.length = n + 1 ∧
      (∀ c, c ∈ cs → c.isUser = 1 ∧ c.new.addr ∈ T'.tasks ∧
        T'.sched.get c.new.addr .state = taskSuspended) ∧
      (T'.live ++ T.idleRecord).Perm (cs.flatMap CreatedTask.blocks ++ T'.idleRecord ++ T.live)) ∧
    (¬ ∀ b, b ∉ T'.idleRecord → (b ∈ T'.live ↔ b ∈ T.live)) ∧
    (¬ ∀ t, t ∈ T'.tasks → T'.sched.runnable t = true) ∧
    ¬ GivesBack T T' ∧ (n + 1) * leakSize ≤ heapSize := by
  have hbound := h.bound hT.inv
  obtain ⟨hinv, hrecord, cs, hlen, hcs, hperm⟩ := h.effect hT.inv
  have htask : ∀ c, c ∈ cs → c.new.addr ∈ T'.tasks ∧
      T'.sched.get c.new.addr .state = taskSuspended := by
    intro c hc
    have hexited := (hcs c hc).2
    cases T' with
    | boot _ _ _ _ => exact absurd hexited List.not_mem_nil
    | running s => exact RingInv.exited hinv _ hexited
  obtain ⟨c, hc⟩ : ∃ c, c ∈ cs := by
    cases cs with
    | nil => exact absurd hlen (by simp)
    | cons c cs => exact ⟨c, List.mem_cons_self⟩
  have hring : ¬ ∀ t, t ∈ T'.tasks → T'.sched.runnable t = true := by
    intro hall
    have hrun := hall _ (htask c hc).1
    rw [RingInv.not_runnable (htask c hc).2] at hrun
    exact absurd hrun (by decide)
  have hlive : ¬ ∀ b, b ∉ T'.idleRecord → (b ∈ T'.live ↔ b ∈ T.live) := by
    intro hall
    obtain ⟨hnotin, hmem, hnot⟩ := leaked_block hT.inv hinv hrecord hperm hc
    exact hnot ((hall _ hnotin).mp hmem)
  exact ⟨⟨cs, hlen, fun c hc => ⟨(hcs c hc).1, htask c hc⟩, hperm⟩, hlive, hring,
    fun hback => hlive hback.1, hbound⟩

end Runs

/-! ### A call -/

/-- The image of the program. -/
def sampleImage : Image := ⟨0x10000C, 9⟩

theorem sampleTasking_activates :
    ((sampleTasking.loaded sampleLoaded sampleImage).activated 0x5000).isSome = true := by
  decide +kernel

/-- The program is in memory and there is a ring. -/
def sampleActivated : SchedState :=
  ((sampleTasking.loaded sampleLoaded sampleImage).activated 0x5000).get sampleTasking_activates

theorem sampleLoaded_starts : (sampleLoaded.execStart sampleImage 0x5000).isSome = true := by
  decide +kernel

/-- What starting the program returns. -/
def sampleStarted : Kernel × Option Nat :=
  (sampleLoaded.execStart sampleImage 0x5000).get sampleLoaded_starts

/-- The task of the program has the CPU. -/
def sampleProgramRuns : SchedState :=
  (sampleActivated.step (.create (sampleLoaded.entryAddr sampleImage) 0 1)).step (.tick 0x9000)

/-- The program has returned to its trampoline. As in `run_scheduler_ring_sample`, the field
`eax` of the frame is the operand there. -/
def sampleExited : SchedState := sampleProgramRuns.step (.syscall 0x101052)

theorem sampleExited_returns :
    (Kernel.execReturn ⟨sampleStarted.1.fs, sampleExited.sched⟩ sampleImage).isSome = true := by
  decide +kernel

/-- The scheduler after the call. -/
def sampleAfter : SchedState :=
  let k := (Kernel.execReturn ⟨sampleStarted.1.fs, sampleExited.sched⟩ sampleImage).get
    sampleExited_returns
  { sampleExited with
    sched := k.sched
    live := sampleExited.live.filter (·.1 ≠ sampleImage.codeBuffer) }

theorem sampleExited_waits : Waits sampleHeap
    (sampleActivated.step (.create (sampleLoaded.entryAddr sampleImage) 0 1)) sampleExited := by
  have hruns : Waits sampleHeap
      (sampleActivated.step (.create (sampleLoaded.entryAddr sampleImage) 0 1))
      sampleProgramRuns := .step (.refl _) trivial trivial
  refine .step hruns trivial ?_
  show _ → _
  decide +kernel

theorem sampleTasking_executes : Executes sampleHeap 0x5000 sampleTasking sampleAfter := by
  have hload : sampleKernel.execLoad (.ofBuffer [98]) = some (sampleLoaded, some sampleImage) := by
    unfold sampleLoaded
    exact some_get_pair sampleKernel_loads (by decide +kernel)
  have hstart : sampleLoaded.execStart sampleImage 0x5000 =
      some (sampleStarted.1, some 0x100049) := by
    unfold sampleStarted
    exact some_get_pair sampleLoaded_starts (by decide +kernel)
  have hkernel : sampleKernel = ⟨sampleKernel.fs, sampleTasking.sched⟩ := by rw [sampleKernel]
  rw [hkernel] at hload
  exact .call hload sampleLoaded_memory hstart
    (Option.some_get sampleTasking_activates).symm sampleExited_waits (by decide +kernel)
    (Option.some_get sampleExited_returns).symm

/-- One call of `exec` leaves three blocks. -/
theorem exec_run_leaks_sample :
    sampleTasking.live = [] ∧ (Tasking.running sampleAfter).live.length = 4 ∧
      ¬ GivesBack sampleTasking (.running sampleAfter) :=
  ⟨rfl, by decide +kernel,
    (exec_run_leaks sampleTasking_reachable (.snoc .nil sampleTasking_executes)).2.2.2.1⟩

/-- The program of `writehex_exec_sample` leaves its record. -/
theorem exec_keeps_task : ¬ ∀ (kernelHeap : KernelHeap) (stackSpace : Nat) (T T' : Tasking)
    (n : Nat), T.Reachable kernelHeap → ExecRun kernelHeap stackSpace T n T' → GivesBack T T' := by
  intro hall
  have hback := hall sampleHeap 0x5000 sampleTasking _ 1 sampleTasking_reachable
    (.snoc .nil sampleTasking_executes)
  have hrun := hback.2 0x100049 (by decide +kernel)
  exact absurd hrun (by decide +kernel)

end Newrex
