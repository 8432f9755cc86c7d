import Newrex.Sched.Runs

/-!
# Saved contexts

What `task_switch` returns when a task gets the CPU: the stack pointer with which the
task last lost it, or the frame that `task_create` built. `ContextInv` says where both
are kept while the task waits, and `run_context` is the result for all runs.
-/

namespace Newrex

open LittleEndian Ring

/-- While the other tasks wait, their records hold their saved stack pointers, and the
stacks of those that have not run yet are as they were built. -/
structure ContextInv (s : SchedState) : Prop where
  saved : ∀ t, t ∈ s.tasks → t ≠ s.sched.currentTask → ∀ esp, s.switches.lookup t = some esp →
    s.sched.get t .kstack = esp
  waiting : ∀ c, c ∈ s.created → s.Waiting c →
    s.sched.get c.new.addr .kstack = c.new.frame ∧ Built s.sched.heap.mem c
  idle : s.idle = s.sched.currentTask ∨ ∃ esp, s.switches.lookup s.idle = some esp
  logged : ∀ t esp, (t, esp) ∈ s.switches → t ∈ s.tasks

/-- The call of `task_switch` with `esp` in the state `s` ended in `sched` and returned
`ret`. If the task that got the CPU was current in a call of `task_switch` before, this
one included, then `ret` is the `esp` of the latest such call. Otherwise it has not run
yet, and `ret` is the frame that `task_create` built for its first run. -/
def SchedState.Resumes (s : SchedState) (esp : Nat) (sched : Sched) (ret : Nat) : Prop :=
  sched.currentTask ∈ s.tasks ∧
  sched.tssEsp0 = sched.get sched.currentTask .kstackTopPage ∧
  match ((s.sched.currentTask, esp) :: s.switches).lookup sched.currentTask with
  | some saved => ret = saved
  | none => ∃ c, c ∈ s.created ∧ c.new.addr = sched.currentTask ∧ ret = c.new.frame ∧
    FirstRun sched.heap.mem c ret

/-- One more task changes nothing for the others. -/
theorem SchedState.Resumes.mono {s : SchedState} {esp : Nat} {sched : Sched} {ret : Nat}
    (h : s.Resumes esp sched ret) (c : CreatedTask) :
    SchedState.Resumes { s with created := s.created ++ [c] } esp sched ret := by
  obtain ⟨hmem, hesp0, hret⟩ := h
  refine ⟨?_, hesp0, ?_⟩
  · rw [tasks, List.map_append, ← List.cons_append]
    exact List.mem_append_left _ hmem
  · dsimp only
    split at hret
    · exact hret
    · obtain ⟨c', hc', hrest⟩ := hret
      exact ⟨c', List.mem_append_left _ hc', hrest⟩

namespace ContextInv

variable {kernelHeap : KernelHeap} {s s' : SchedState}

theorem lookup_eq_none {l : List (Nat × Nat)} {t : Nat} :
    l.lookup t = none ↔ ∀ esp, (t, esp) ∉ l := by
  rw [List.lookup_eq_none_iff]
  constructor
  · intro h esp hmem
    have := h _ hmem
    simp at this
  · rintro h ⟨u, esp⟩ hmem
    have hne : t ≠ u := fun heq => h esp (heq ▸ hmem)
    simpa using hne

theorem lookup_self (l : List (Nat × Nat)) (t esp : Nat) : ((t, esp) :: l).lookup t = some esp := by
  rw [List.lookup_cons, beq_self_eq_true]

theorem lookup_other (l : List (Nat × Nat)) {t u : Nat} (esp : Nat) (h : t ≠ u) :
    ((u, esp) :: l).lookup t = l.lookup t := by
  have hbeq : (t == u) = false := by simpa using h
  rw [List.lookup_cons, hbeq]

theorem created_mem {c : CreatedTask} (hc : c ∈ s.created) : c.new.addr ∈ s.tasks :=
  List.mem_cons_of_mem _ (List.mem_map.mpr ⟨c, hc, rfl⟩)

/-- A stack page of a task overlaps no record. -/
theorem page_outside (h : RingInv kernelHeap s) {p x : Nat} (hp : (p, 4096) ∈ s.blocks)
    (hlow : p ≤ x) (hhigh : x < p + 4096) : OutsideRecords s.tasks x := by
  intro t ht
  have hb := RingInv.task_block s ht
  have hne : t ≠ p := by
    rintro rfl
    have := List.inj_on_of_nodup_map h.distinct hp hb rfl
    simp [taskStructSize] at this
  have := h.blocks_apart hp hb hne
  omega

theorem built_frame {c : CreatedTask} {mem mem' : Nat → UInt8} (h : Built mem c)
    (hbytes : ∀ p, (p, 4096) ∈ c.blocks → ∀ x, p ≤ x → x < p + 4096 → mem' x = mem x) :
    Built mem' c :=
  h.congr (hbytes c.new.kstackPage (by simp [CreatedTask.blocks]))
    fun huser => hbytes c.new.ustackPage (by simp [CreatedTask.blocks, huser])

/-- What `task_create` leaves for the new task. -/
theorem create_new (hring : RingInv kernelHeap s) {entry pageDir isUser : UInt32} {sched : Sched}
    {new : Sched.NewTask} (hnew : s.sched.newTask entry pageDir isUser = some (sched, new))
    (hok : CreatedTask.Allocated ⟨new, entry, isUser⟩) :
    (s.step (.create entry pageDir isUser)).created = s.created ++ [⟨new, entry, isUser⟩] ∧
      (s.step (.create entry pageDir isUser)).live =
        CreatedTask.blocks ⟨new, entry, isUser⟩ ++ s.live ∧
      (s.step (.create entry pageDir isUser)).sched.get new.addr .state = taskReady ∧
      (s.step (.create entry pageDir isUser)).sched.get new.addr .kstack = new.frame ∧
      Built (s.step (.create entry pageDir isUser)).sched.heap.mem ⟨new, entry, isUser⟩ := by
  obtain ⟨hgrows, hready, hkstack, hbuilt, _⟩ := Sched.newTask_effect hring.heap hnew hok
  obtain ⟨sched2, heq, heff, _⟩ := hring.create_effect hnew hgrows
  have hinv := hring.create ⟨sched, new, hnew, hok⟩
  simp only [SchedState.step, hnew, heq] at hinv ⊢
  refine ⟨trivial, trivial, (heff.field new.addr (by simp) .state (by decide)).trans hready,
    (heff.field new.addr (by simp) .kstack (by decide)).trans hkstack, ?_⟩
  -- the stores into the queue are outside of the stack pages
  refine built_frame hbuilt fun p hp x hlow hhigh => heff.mem x ?_
  have hout := page_outside hinv (RingInv.created_block _ (by simp) hp) hlow hhigh
  rwa [RingInv.tasks_create] at hout

/-- A change that keeps the current task, the history, the saved stack pointers and the
stacks of the tasks that have not run yet. -/
theorem frame (h : ContextInv s) (htasks : s'.tasks = s.tasks) (hcreated : s'.created = s.created)
    (hidle : s'.idle = s.idle) (hswitches : s'.switches = s.switches)
    (hcurrent : s'.sched.currentTask = s.sched.currentTask)
    (hkstack : ∀ t, t ∈ s.tasks → s'.sched.get t .kstack = s.sched.get t .kstack)
    (hbytes : ∀ c, c ∈ s.created → s.Waiting c → ∀ p, (p, 4096) ∈ c.blocks →
      ∀ x, p ≤ x → x < p + 4096 → s'.sched.heap.mem x = s.sched.heap.mem x) : ContextInv s' := by
  refine ⟨?_, ?_, ?_, ?_⟩
  · rw [htasks, hcurrent, hswitches]
    intro t ht hne esp hlook
    rw [hkstack t ht]
    exact h.saved t ht hne esp hlook
  · rw [hcreated]
    intro c hc hwait
    rw [SchedState.Waiting, hcurrent, hswitches] at hwait
    obtain ⟨hframe, hbuilt⟩ := h.waiting c hc hwait
    refine ⟨?_, built_frame hbuilt (hbytes c hc hwait)⟩
    rw [hkstack _ (created_mem hc), hframe]
  · rw [hidle, hcurrent, hswitches]
    exact h.idle
  · rw [hswitches, htasks]
    exact h.logged

/-- After a switch the task that lost the CPU has its stack pointer saved. -/
theorem switch (h : ContextInv s) (hring : RingInv kernelHeap s) {sched : Sched} {esp next : Nat}
    (heff : Sched.SwitchEffect s.sched sched s.tasks esp next) :
    ContextInv { s with sched, switches := (s.sched.currentTask, esp) :: s.switches } := by
  refine ⟨?_, ?_, ?_, ?_⟩
  · intro t ht _ e hsome
    change ((s.sched.currentTask, esp) :: s.switches).lookup t = some e at hsome
    show sched.get t .kstack = e
    rw [heff.kstack t ht]
    by_cases htc : t = s.sched.currentTask
    · subst htc
      rw [lookup_self] at hsome
      rw [if_pos rfl]
      exact Option.some.inj hsome
    · rw [lookup_other _ _ htc] at hsome
      rw [if_neg htc]
      exact h.saved t ht htc e hsome
  · rintro c hc ⟨_, hlog⟩
    have hne : c.new.addr ≠ s.sched.currentTask := by
      intro heq
      refine hlog esp ?_
      rw [heq]
      exact List.mem_cons_self
    obtain ⟨hframe, hbuilt⟩ :=
      h.waiting c hc ⟨hne, fun e hmem => hlog e (List.mem_cons_of_mem _ hmem)⟩
    refine ⟨?_, built_frame hbuilt fun p hp x hlow hhigh => heff.mem x ?_⟩
    · show sched.get c.new.addr .kstack = c.new.frame
      rw [heff.kstack _ (created_mem hc), if_neg hne, hframe]
    · exact page_outside hring (RingInv.created_block s hc hp) hlow hhigh
  · right
    show ∃ e, ((s.sched.currentTask, esp) :: s.switches).lookup s.idle = some e
    by_cases hidle : s.idle = s.sched.currentTask
    · exact ⟨esp, by rw [hidle, lookup_self]⟩
    · obtain heq | ⟨e, he⟩ := h.idle
      · exact absurd heq hidle
      · exact ⟨e, by rw [lookup_other _ _ hidle, he]⟩
  · intro t e hmem
    rcases List.mem_cons.mp hmem with heq | hmem
    · rw [(Prod.mk.inj heq).1]
      exact hring.current
    · exact h.logged t e hmem

/-- A new task waits with the frame that was built for it. -/
theorem create (h : ContextInv s) (hring : RingInv kernelHeap s) {entry pageDir isUser : UInt32}
    (hallowed : s.Allowed kernelHeap (.create entry pageDir isUser)) :
    ContextInv (s.step (.create entry pageDir isUser)) := by
  obtain ⟨hcurrent, hold⟩ := hring.create_old hallowed
  obtain ⟨sched1, new, hnew, hok⟩ := hallowed
  obtain ⟨hgrows, _⟩ := Sched.newTask_effect hring.heap hnew hok
  obtain ⟨sched2, heq, heff, hnodup⟩ := hring.create_effect hnew hgrows
  have hinv := hring.create ⟨sched1, new, hnew, hok⟩
  have hframe := (create_new hring hnew hok).2.2.2
  simp only [SchedState.step, hnew, heq] at hcurrent hold hinv hframe ⊢
  have hfresh : new.addr ∉ s.tasks := fun hmem =>
    (List.nodup_append.mp hnodup).2.2 _ hmem _ (List.mem_singleton_self _) rfl
  -- the stack pages of all tasks are kept by the last stores
  have hpage : ∀ c, c ∈ s.created ++ [⟨new, entry, isUser⟩] → ∀ p, (p, 4096) ∈ c.blocks →
      ∀ x, p ≤ x → x < p + 4096 → sched2.heap.mem x = sched1.heap.mem x := by
    intro c hc p hp x hlow hhigh
    have hout := page_outside hinv (RingInv.created_block _ hc hp) hlow hhigh
    rw [RingInv.tasks_create] at hout
    exact heff.mem x hout
  refine ⟨?_, ?_, ?_, ?_⟩
  · rw [RingInv.tasks_create]
    intro t ht hne esp hlook
    rcases List.mem_append.mp ht with hmem | hmem
    · refine (hold t hmem .kstack (by decide)).trans (h.saved t hmem ?_ esp hlook)
      rw [← hcurrent]
      exact hne
    · obtain ⟨_, _, hsplit, _⟩ := List.lookup_eq_some_iff.mp hlook
      rw [List.mem_singleton.mp hmem] at hsplit
      refine absurd (h.logged new.addr esp ?_) hfresh
      rw [hsplit]
      simp
  · intro c hc hwait
    rcases List.mem_append.mp hc with hmem | hmem
    · have hwait' : s.Waiting c := by
        rw [SchedState.Waiting, ← hcurrent]
        exact hwait
      obtain ⟨hkstack, hb⟩ := h.waiting c hmem hwait'
      refine ⟨(hold _ (created_mem hmem) .kstack (by decide)).trans hkstack, ?_⟩
      refine built_frame hb fun p hp x hlow hhigh => (hpage c hc p hp x hlow hhigh).trans ?_
      exact hgrows.bytes p 4096 (hring.owned _ (RingInv.created_block s hmem hp)) x hlow hhigh
    · rw [List.mem_singleton.mp hmem]
      exact hframe
  · show s.idle = sched2.currentTask ∨ _
    rw [hcurrent]
    exact h.idle
  · rw [RingInv.tasks_create]
    exact fun t esp hmem => List.mem_append_left _ (h.logged t esp hmem)

/-- A system call that switches, as in `RingInv.syscall_switch`. -/
theorem syscall_switch (h : ContextInv s) (hring : RingInv kernelHeap s) {esp : UInt32}
    (hallowed : s.Allowed kernelHeap (.syscall esp))
    (hnum : s.sched.frameEax esp.toNat = 1 ∨ s.sched.frameEax esp.toNat = 3) :
    ∃ s1 : SchedState, RingInv kernelHeap s1 ∧ ContextInv s1 ∧
      (∀ sched ret, s1.Resumes esp.toNat sched ret → s.Resumes esp.toNat sched ret) ∧
      s.sched.syscallHandler esp.toNat = s1.sched.taskSwitch esp.toNat ∧
      s.step (.syscall esp) = s1.step (.tick esp) := by
  obtain ⟨s1, h1, htasks, hcreated, hidle, hswitches, hcurrent, hget, hmem, hcall, hstep⟩ :=
    hring.syscall_switch hallowed hnum
  refine ⟨s1, h1, ?_, fun sched ret hres => ?_, hcall, hstep⟩
  · refine h.frame htasks hcreated hidle hswitches hcurrent
      (fun t ht => hget t ht .kstack (by decide)) ?_
    exact fun c hc _ p hp x hlow hhigh =>
      hmem x (page_outside hring (RingInv.created_block s hc hp) hlow hhigh)
  · rw [SchedState.Resumes, htasks, hcreated, hswitches, hcurrent] at hres
    exact hres

theorem step (h : ContextInv s) (hring : RingInv kernelHeap s) {action : SchedAction}
    (hallowed : s.Allowed kernelHeap action) : ContextInv (s.step action) := by
  have htick : ∀ {s : SchedState} (esp : UInt32), ContextInv s → RingInv kernelHeap s →
      ContextInv (s.step (.tick esp)) := by
    intro s esp h hring
    obtain ⟨sched, next, heq, heff, _⟩ := hring.switch esp.toNat_lt
    simp only [SchedState.step, heq]
    exact h.switch hring heff
  cases action with
  | create entry pageDir isUser => exact h.create hring hallowed
  | tick esp => exact htick esp h hring
  | syscall esp =>
    by_cases hnum : s.sched.frameEax esp.toNat = 1 ∨ s.sched.frameEax esp.toNat = 3
    · obtain ⟨s1, hring1, h1, _, _, heq⟩ := h.syscall_switch hring hallowed hnum
      rw [heq]
      exact htick esp h1 hring1
    · obtain ⟨console, heq⟩ := RingInv.syscall_print hnum
      rw [heq]
      exact h.frame rfl rfl rfl rfl rfl (fun _ _ => rfl) fun _ _ _ _ _ _ _ _ => rfl
  | other action =>
    refine h.frame rfl rfl rfl rfl rfl (fun t ht => hring.other_get hallowed ht) ?_
    intro c hc hwait p hp x hlow hhigh
    exact hring.other_bytes hallowed (RingInv.created_block s hc hp) hlow hhigh
      (Or.inr ⟨c, hc, hwait, p, 4096, hp, hlow, hhigh⟩)

/-- What a switch returns, when the stack pages overlap no record. -/
theorem resumes (h : ContextInv s)
    (hpages : ∀ p, (p, 4096) ∈ s.blocks → ∀ x, p ≤ x → x < p + 4096 → OutsideRecords s.tasks x)
    {sched : Sched} {esp next : Nat}
    (heff : Sched.SwitchEffect s.sched sched s.tasks esp next) (hnext : next ∈ s.tasks) :
    s.Resumes esp sched (sched.get next .kstack) := by
  refine ⟨by rw [heff.current]; exact hnext, by rw [heff.current, heff.esp0], ?_⟩
  rw [heff.current, heff.kstack next hnext]
  by_cases hkeep : next = s.sched.currentTask
  · -- the task keeps the CPU
    rw [hkeep, lookup_self, if_pos rfl]
  · rw [lookup_other _ _ hkeep, if_neg hkeep]
    cases hlook : s.switches.lookup next with
    | some saved => exact h.saved next hnext hkeep saved hlook
    | none =>
      -- PID 0 runs from the start, so it is another task
      have hidle : next ≠ s.idle := by
        rintro rfl
        rcases h.idle with heq | ⟨esp, hsome⟩
        · exact hkeep heq
        · rw [hlook] at hsome
          exact absurd hsome (by simp)
      obtain ⟨c, hc, hceq⟩ := List.mem_map.mp ((List.mem_cons.mp hnext).resolve_left hidle)
      subst hceq
      obtain ⟨hframe, hbuilt⟩ := h.waiting c hc ⟨hkeep, lookup_eq_none.mp hlook⟩
      have hafter : Built sched.heap.mem c := built_frame hbuilt fun p hp x hlow hhigh =>
        heff.mem x (hpages p (RingInv.created_block s hc hp) x hlow hhigh)
      refine ⟨c, hc, rfl, hframe, ?_⟩
      rw [hframe]
      exact hafter.firstRun

end ContextInv

/-- Every state of a run keeps the contexts of the waiting tasks. -/
theorem reachable_contextInv {kernelHeap : KernelHeap} {s : SchedState}
    (h : (schedRuns kernelHeap).Reachable s) : ContextInv s := by
  refine h.invariant (P := ContextInv) ?_ ?_
  · rintro s ⟨hs, _, _, _, _, sched, _, _, _, rfl⟩
    refine ⟨?_, ?_, Or.inl rfl, ?_⟩
    · intro t _ _ esp hlook
      exact absurd hlook (by simp)
    · exact fun c hc => absurd hc List.not_mem_nil
    · exact fun t esp hmem => absurd hmem List.not_mem_nil
  · intro s action hreach hinv hallowed
    exact hinv.step (reachable_ringInv hreach).1 hallowed

/-- No context is lost or mixed up. In every state of a run a call of `task_switch`, on
a tick or by the system calls exit and yield, ends with a task current that gets back
exactly the stack pointer it lost the CPU with, or starts with the frame built for it,
and `esp0` of the TSS is the top of its kernel stack. -/
theorem run_context {kernelHeap : KernelHeap} {s : SchedState}
    (h : (schedRuns kernelHeap).Reachable s) (esp : UInt32) :
    (∃ sched ret, s.sched.taskSwitch esp.toNat = some (sched, ret) ∧
        s.Resumes esp.toNat sched ret) ∧
      (s.Allowed kernelHeap (.syscall esp) →
        s.sched.frameEax esp.toNat = 1 ∨ s.sched.frameEax esp.toNat = 3 →
          ∃ sched ret, s.sched.syscallHandler esp.toNat = some (sched, ret) ∧
            s.Resumes esp.toNat sched ret) := by
  obtain ⟨hring, _⟩ := reachable_ringInv h
  have hcontext := reachable_contextInv h
  constructor
  · obtain ⟨sched, next, heq, heff, hnext, _⟩ := hring.switch esp.toNat_lt
    exact ⟨_, _, heq, hcontext.resumes (fun _ hp _ => ContextInv.page_outside hring hp) heff hnext⟩
  · intro hallowed hnum
    obtain ⟨s1, hring1, hcontext1, hresumes, hcall, _⟩ :=
      hcontext.syscall_switch hring hallowed hnum
    obtain ⟨sched, next, heq, heff, hnext, _⟩ := hring1.switch esp.toNat_lt
    have hafter := hcontext1.resumes (fun _ hp _ => ContextInv.page_outside hring1 hp) heff hnext
    exact ⟨_, _, hcall.trans heq, hresumes _ _ hafter⟩

/-- The first run of a user task, and PID 0 getting its stack pointer back. -/
theorem run_context_sample :
    (∃ sched, sampleCreated.sched.taskSwitch (0x9000 : UInt32).toNat = some (sched, 0x101018) ∧
      sampleCreated.Resumes (0x9000 : UInt32).toNat sched 0x101018) ∧
    ∃ sched, sampleRunning.sched.taskSwitch (0x8000 : UInt32).toNat = some (sched, 0x9000) ∧
      sampleRunning.Resumes (0x8000 : UInt32).toNat sched 0x9000 := by
  obtain ⟨sched, ret, heq, hres⟩ := (run_context sampleCreated_reachable 0x9000).1
  obtain ⟨sched', ret', heq', hres'⟩ := (run_context sampleRunning_reachable 0x8000).1
  have hret : (sampleCreated.sched.taskSwitch (0x9000 : UInt32).toNat).map Prod.snd =
      some 0x101018 := by decide +kernel
  have hret' : (sampleRunning.sched.taskSwitch (0x8000 : UInt32).toNat).map Prod.snd =
      some 0x9000 := by decide +kernel
  rw [heq] at hret
  rw [heq'] at hret'
  obtain rfl : ret = 0x101018 := Option.some.inj hret
  obtain rfl : ret' = 0x9000 := Option.some.inj hret'
  exact ⟨⟨sched, heq, hres⟩, sched', heq', hres'⟩

end Newrex
