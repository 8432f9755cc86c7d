import Newrex.Sched.Interference

/-!
# Interrupts during `task_create`

`task_create` runs with interrupts enabled. `CreateRun` are its runs with timer ticks between
its steps: a step of `task_create` is made only while its caller has the CPU, and a tick may
come at any time.

The store `curr->next = t` puts the new task into the ring while its own `next` is still null.
When a tick gives it the CPU then, the next tick follows the null pointer. `create_ticks_iff`
says that nothing else goes wrong.
-/

namespace Newrex

open LittleEndian Interrupt Ring

namespace Sched

/-! ## Pointers followed -/

/-- The tasks that the loop of `task_switch` looks at. -/
def searchPath (s : Sched) : (fuel : Nat) → (next : Nat) → List Nat
  | 0, _ => []
  | fuel + 1, next =>
    next :: if s.runnable next then []
      else if s.get next .next = s.currentTask then [s.get next .next]
      else searchPath s fuel (s.get next .next)

/-- The `next` pointers that a call of `task_switch` follows. -/
def switchPath (s : Sched) (esp : Nat) : List Nat :=
  if s.schedulerActive = false ∨ s.currentTask = 0 then []
  else
    let s := s.set s.currentTask .kstack esp
    s.searchPath (2 ^ 32) (s.get s.currentTask .next)

variable {s : Sched} {C : List Nat}

theorem mem_searchPath {fuel next : Nat} (h : 0 < fuel) : next ∈ s.searchPath fuel next := by
  cases fuel with
  | zero => exact absurd h (Nat.lt_irrefl 0)
  | succ fuel => exact List.mem_cons_self

/-- The search stays in a set that it can leave at runnable tasks only. -/
theorem searchPath_mem (hclosed : ∀ u, u ∈ C → s.runnable u = false → s.get u .next ∈ C)
    {fuel next : Nat} (hnext : next ∈ C) : ∀ p, p ∈ s.searchPath fuel next → p ∈ C := by
  induction fuel generalizing next with
  | zero => exact fun p hp => absurd hp List.not_mem_nil
  | succ fuel ih =>
    intro p hp
    rcases List.mem_cons.mp hp with rfl | hp
    · exact hnext
    · cases hrun : s.runnable next with
      | true => simp [hrun] at hp
      | false =>
        have hmem := hclosed next hnext hrun
        simp only [hrun, Bool.false_eq_true, if_false] at hp
        split at hp
        · rw [List.mem_singleton.mp hp]
          exact hmem
        · exact ih hmem p hp

theorem switchPath_mem {esp : Nat} (hcur : s.currentTask ∈ C) (hapart : RecordsApart C)
    (hesp : esp < 2 ^ 32) (hnext : s.get s.currentTask .next ∈ C)
    (hclosed : ∀ u, u ∈ C → s.runnable u = false → s.get u .next ∈ C) :
    ∀ p, p ∈ s.switchPath esp → p ∈ C := by
  -- saving the stack pointer changes neither the links nor the states
  have hkeep : ∀ u, u ∈ C → ∀ f, f ≠ .kstack →
      (s.set s.currentTask .kstack esp).get u f = s.get u f := by
    intro u hu f hf
    rw [get_set hapart hcur hu hesp, if_neg fun h => hf h.2]
  intro p hp
  unfold switchPath at hp
  split at hp
  · exact absurd hp List.not_mem_nil
  · refine searchPath_mem (fun u hu hrun => ?_) ?_ p hp
    · rw [hkeep u hu .next (by decide)]
      refine hclosed u hu ?_
      rw [← hrun]
      exact (runnable_congr (hkeep u hu .state (by decide))).symm
    · show (s.set s.currentTask .kstack esp).get s.currentTask .next ∈ C
      rw [hkeep _ hcur .next (by decide)]
      exact hnext

/-- The loop of `task_create` stays in the ring. -/
theorem lastLoop_mem (hclosed : ∀ u, u ∈ C → s.get u .next ∈ C) {fuel curr last : Nat}
    (hcurr : curr ∈ C) (h : s.lastLoop fuel curr = some last) : last ∈ C := by
  induction fuel generalizing curr with
  | zero => cases h
  | succ fuel ih =>
    rw [lastLoop] at h
    split at h
    · exact ih (hclosed curr hcurr) h
    · cases h
      exact hcurr

/-- A search that ends at the runnable task `t` behind the tasks `l`. -/
theorem searchLoop_until {l : List Nat} {t fuel : Nat} (hlinks : Links (fun t => s.get t .next) l t)
    (hcur : s.currentTask ∉ l) (hne : t ≠ s.currentTask) (hrun : s.runnable t = true)
    (hfuel : l.length < fuel) :
    s.searchLoop fuel (l.headD t) = some ((l.find? s.runnable).getD t) := by
  induction l generalizing fuel with
  | nil =>
    obtain ⟨fuel, rfl⟩ : ∃ k, fuel = k + 1 := ⟨fuel - 1, by simp at hfuel; omega⟩
    rw [List.headD_nil, searchLoop, if_pos hrun]
    rfl
  | cons x l ih =>
    obtain ⟨fuel, rfl⟩ : ∃ k, fuel = k + 1 := ⟨fuel - 1, by omega⟩
    obtain ⟨hx, hl⟩ := hlinks
    rw [List.headD_cons, searchLoop, List.find?_cons]
    cases hrunx : s.runnable x with
    | true => rfl
    | false =>
      have hnext : l.headD t ≠ s.currentTask := by
        cases l with
        | nil => exact hne
        | cons y l => exact fun heq => hcur (by rw [← heq]; simp)
      simp only [hx, Bool.false_eq_true, if_false]
      rw [if_neg hnext]
      exact ih hl (fun hmem => hcur (List.mem_cons_of_mem x hmem)) (by simp at hfuel; omega)

end Sched

/-! ## Runs -/

/-- `task_create` on its way: the task that called it, and what it has still to do. -/
structure Creation where
  state : SchedState
  creator : Nat
  prog : Prog Sched Nat

namespace Creation

/-- The call of `task_create` by the current task. -/
def start (s : SchedState) (entry pageDir isUser : UInt32) : Creation :=
  ⟨s, s.sched.currentTask, Sched.taskCreateStores entry pageDir isUser⟩

/-- The next step of `task_create`. -/
def proceed (x : Creation) : Creation :=
  match x.prog with
  | .next f rest =>
    { x with state := { x.state with sched := f x.state.sched }, prog := rest x.state.sched }
  | _ => x

def tick (x : Creation) (esp : UInt32) : Creation := { x with state := x.state.step (.tick esp) }

@[simp] theorem tick_prog (x : Creation) (esp : UInt32) : (x.tick esp).prog = x.prog := by
  rw [tick]

/-- `task_create` has returned. -/
def Finished (x : Creation) : Prop := ∃ t, x.prog = .done t

end Creation

/-- A run of `task_create`, with the ticks and the states that they came in. -/
inductive CreateRun (x0 : Creation) : Creation → List (Creation × UInt32) → Prop
  | nil : CreateRun x0 x0 []
  | proceed {x : Creation} {ticks : List (Creation × UInt32)} : CreateRun x0 x ticks →
      x.state.sched.currentTask = x.creator → CreateRun x0 x.proceed ticks
  | tick {x : Creation} {ticks : List (Creation × UInt32)} {esp : UInt32} :
      CreateRun x0 x ticks → CreateRun x0 (x.tick esp) ((x, esp) :: ticks)

/-- The tick that comes in `x` while the task `c` is created follows no null pointer. It ends
with a current task that gets back its stack pointer or has a complete first frame. -/
def Creation.TickOk (x : Creation) (c : CreatedTask) (esp : UInt32) : Prop :=
  (∀ p, p ∈ x.state.sched.switchPath esp.toNat → p ≠ 0) ∧
    ∃ sched ret, x.state.sched.taskSwitch esp.toNat = some (sched, ret) ∧
      SchedState.Resumes { x.state with created := x.state.created ++ [c] } esp.toNat sched ret

/-- The new task `c` does not have the CPU before `task_create` has linked it in on both
sides. -/
def Creation.LinkedFirst (x : Creation) (c : CreatedTask) : Prop :=
  x.Finished ∨ x.state.sched.currentTask ≠ c.new.addr

/-! ## In front of the link -/

/-- The ticks that have come so far, without the steps of `task_create`, lead from `s` to `sk`.
From there `task_create` goes to `sched` in front of the stores that link the new task `c` in
behind the task `last`. -/
structure Ticked (kernelHeap : KernelHeap) (s : SchedState) (c : CreatedTask) (pageDir : UInt32)
    (sk : SchedState) (sched : Sched) (last : Nat) : Prop where
  ring : RingInv kernelHeap sk
  context : ContextInv sk
  idle : sk.idle = s.idle
  created : sk.created = s.created
  live : sk.live = s.live
  allocated : c.Allocated
  lastMem : last ∈ s.tasks
  prepared : (Sched.prepareStores c.entry pageDir c.isUser).run sk.sched =
    some (sched, c.new, some last)

namespace Ticked

variable {kernelHeap : KernelHeap} {s sk : SchedState} {c : CreatedTask} {pageDir : UInt32}
  {sched : Sched} {last : Nat}

theorem tasks (h : Ticked kernelHeap s c pageDir sk sched last) : sk.tasks = s.tasks := by
  rw [SchedState.tasks, SchedState.tasks, h.idle, h.created]

theorem newTask (h : Ticked kernelHeap s c pageDir sk sched last) :
    sk.sched.newTask c.entry pageDir c.isUser = some (sched, c.new) := by
  have hrun := h.prepared
  simp only [Sched.prepareStores, Prog.run_bind, Sched.newTaskStores_run,
    Option.bind_eq_some_iff] at hrun
  obtain ⟨⟨sched1, new⟩, hnew, ⟨sched2, last'⟩, hlast, heq⟩ := hrun
  obtain ⟨rfl, rfl, rfl⟩ : sched2 = sched ∧ new = c.new ∧ last' = some last := by
    simpa using heq
  have hsame : sched2 = sched1 := by
    simp only [Sched.lastStores, Prog.run_bind, Prog.run_read, Option.bind_some] at hlast
    split at hlast
    · cases hlast
    · simp only [Prog.run_bind, Sched.lastLoopStores_run, Option.bind_map] at hlast
      obtain ⟨curr, _, hlast⟩ := Option.bind_eq_some_iff.mp hlast
      exact (Prod.mk.inj (Option.some.inj hlast)).1.symm
  rw [hnew, hsame]

theorem insensitive (h : Ticked kernelHeap s c pageDir sk sched last) :
    Insensitive (Sched.Switched s.tasks) (Sched.Keeps s.live)
      (Sched.prepareStores c.entry pageDir c.isUser) sk.sched := by
  have hins := h.ring.prepareStores_insensitive h.newTask h.allocated
  rw [h.tasks, h.live] at hins
  exact hins

theorem recordsIn (h : Ticked kernelHeap s c pageDir sk sched last) :
    Sched.RecordsIn s.live s.tasks := by
  have hts := h.ring.recordsIn
  rwa [h.tasks, h.live] at hts

theorem apart (h : Ticked kernelHeap s c pageDir sk sched last) : RecordsApart s.tasks := by
  have hapart := h.ring.apart
  rwa [h.tasks] at hapart

theorem current (h : Ticked kernelHeap s c pageDir sk sched last) :
    sk.sched.currentTask ∈ s.tasks := by
  have hcur := h.ring.current
  rwa [h.tasks] at hcur

/-- `task_create` reads and writes nothing that belongs to the records. -/
theorem keeps (h : Ticked kernelHeap s c pageDir sk sched last) :
    Sched.Keeps s.live sk.sched sched := by
  obtain ⟨sched', hrun, _, hkeeps⟩ := h.insensitive.run (Sched.Keeps.refl s.live)
    (fun _ _ _ h1 h2 => h1.trans h2) ((Sched.Switched.equivalence s.tasks).refl _) h.prepared
  obtain ⟨rfl, _⟩ := Prod.mk.inj (Option.some.inj (h.prepared.symm.trans hrun))
  exact hkeeps

/-- One more tick. -/
theorem tick (h : Ticked kernelHeap s c pageDir sk sched last) {esp : UInt32} {next ret : Nat}
    (hnext : next ∈ s.tasks) (hswitch : sk.sched.taskSwitch esp.toNat =
      some (sk.sched.switchTo esp.toNat next, ret)) :
    ∃ sk' sched', sk' = { sk with
        sched := sk.sched.switchTo esp.toNat next
        switches := (sk.sched.currentTask, esp.toNat) :: sk.switches } ∧
      Ticked kernelHeap s c pageDir sk' sched' last ∧ Sched.Switched s.tasks sched sched' := by
  have hallowed : sk.Allowed kernelHeap (.tick esp) := trivial
  have hring := (h.ring.tick esp).1
  have hcontext := h.context.step h.ring hallowed
  simp only [SchedState.step, hswitch] at hring hcontext
  have hs := Sched.switchTo_switched h.apart h.current hnext esp.toNat_lt
  obtain ⟨sched', hrun, hswitched, _⟩ := h.insensitive.run (Sched.Keeps.refl s.live)
    (fun _ _ _ h1 h2 => h1.trans h2) hs h.prepared
  exact ⟨_, sched', rfl, ⟨hring, hcontext, h.idle, h.created, h.live, h.allocated, h.lastMem, hrun⟩,
    hswitched⟩

end Ticked

/-- `task_create` is on its way to the link: it has `p` to do in front of it, and the ticks so
far could as well have come before the call. -/
structure Preparing (kernelHeap : KernelHeap) (s : SchedState) (c : CreatedTask) (pageDir : UInt32)
    (x : Creation) (sk : SchedState) (sched : Sched) (last : Nat)
    (p : Prog Sched (Sched.NewTask × Option Nat)) : Prop where
  ticked : Ticked kernelHeap s c pageDir sk sched last
  state : x.state = { sk with sched := x.state.sched }
  prog : x.prog = p >>= fun r => Sched.linkStores r.1.addr r.2
  insensitive : Insensitive (Sched.Switched s.tasks) (Sched.Keeps s.live) p x.state.sched
  run : p.run x.state.sched = some (sched, c.new, some last)
  keeps : Sched.Keeps s.live sk.sched x.state.sched

namespace Preparing

variable {kernelHeap : KernelHeap} {s sk : SchedState} {c : CreatedTask} {pageDir : UInt32}
  {x : Creation} {sched : Sched} {last : Nat} {p : Prog Sched (Sched.NewTask × Option Nat)}

theorem start (hring : RingInv kernelHeap s) (hcontext : ContextInv s) {new : Sched.NewTask}
    {entry isUser : UInt32} (hnew : s.sched.newTask entry pageDir isUser = some (sched, new))
    (hok : CreatedTask.Allocated ⟨new, entry, isUser⟩) :
    ∃ last, Preparing kernelHeap s ⟨new, entry, isUser⟩ pageDir
      (Creation.start s entry pageDir isUser) s sched last
      (Sched.prepareStores entry pageDir isUser) := by
  obtain ⟨hgrows, _⟩ := Sched.newTask_effect hring.heap hnew hok
  obtain ⟨sched2, hcreate, _⟩ := hring.create_effect hnew hgrows
  have hqueue : sched.taskQueue ≠ 0 := by
    rw [hgrows.queue, hring.queue]
    have := (hring.range (List.mem_cons_self : s.idle ∈ s.tasks)).1
    omega
  obtain ⟨last, hlast⟩ : ∃ last, sched.lastLoop (2 ^ 32) sched.taskQueue = some last := by
    simp only [Sched.taskCreate, hnew, Sched.enqueue, if_neg hqueue, Option.bind_eq_bind,
      Option.bind_some, Option.bind_eq_some_iff] at hcreate
    obtain ⟨_, ⟨last, hlast, _⟩, _⟩ := hcreate
    exact ⟨last, hlast⟩
  have hrun : (Sched.prepareStores entry pageDir isUser).run s.sched =
      some (sched, new, some last) := by
    simp only [Sched.prepareStores, Prog.run_bind, Sched.newTaskStores_run, hnew, Option.bind_some,
      Sched.lastStores, Prog.run_read, if_neg hqueue, Sched.lastLoopStores_run, hlast,
      Option.map_some, Prog.run_pure]
  have hmem : last ∈ s.tasks := by
    refine Sched.lastLoop_mem (fun u hu => ?_) ?_ hlast
    · rw [Sched.get_congr (hgrows.bytes _ _ (hring.recordsIn u hu)) .next]
      exact hring.next_mem hu
    · rw [hgrows.queue, hring.queue]
      exact List.mem_cons_self
  exact ⟨last, ⟨hring, hcontext, rfl, rfl, rfl, hok, hmem, hrun⟩, rfl, rfl,
    hring.prepareStores_insensitive hnew hok, hrun, Sched.Keeps.refl _ _⟩

/-- The tick finds the ring as it was at the call. -/
theorem switch (h : Preparing kernelHeap s c pageDir x sk sched last p) {esp : Nat}
    (hesp : esp < 2 ^ 32) : ∃ next ret, next ∈ s.tasks ∧
      sk.sched.taskSwitch esp = some (sk.sched.switchTo esp next, ret) ∧
      x.state.sched.taskSwitch esp = some (x.state.sched.switchTo esp next,
        (x.state.sched.switchTo esp next).get next .kstack) := by
  obtain ⟨pre, post, hsplit, hlinks⟩ := h.ticked.ring.split
  have hsame := h.keeps.sameTasks h.ticked.recordsIn
  have hapart := h.ticked.ring.apart
  have hnodup := h.ticked.ring.nodup
  have hlen := h.ticked.ring.length_le
  have hpos := (h.ticked.ring.range h.ticked.ring.current).1
  have hactive := h.ticked.ring.active
  have hmem : ∀ u, u ∈ pre ++ sk.sched.currentTask :: post → u ∈ s.tasks := by
    rw [← hsplit, h.ticked.tasks]
    exact fun u hu => hu
  have hrest : ∀ u, u ∈ sk.sched.currentTask :: (post ++ pre) → u ∈ s.tasks := fun u hu =>
    hmem u (by simp only [List.mem_append, List.mem_cons] at hu ⊢; tauto)
  rw [hsplit] at hapart hnodup hlen
  obtain ⟨heq, _⟩ := Sched.taskSwitch_effect hapart hnodup hlinks hactive (by omega) hlen hesp
  -- the other state has the same ring
  have hlinks' := hlinks.congr fun u hu => h.keeps.get (h.ticked.recordsIn u (hrest u hu)) .next
  have hchosen : x.state.sched.chosen pre post = sk.sched.chosen pre post := by
    rw [Sched.chosen, Sched.chosen, hsame.current]
    congr 1
    refine List.find?_congr fun u hu => hsame.runnable (hrest u (List.mem_cons_of_mem _ hu))
  rw [← hsame.current] at hapart hnodup hlen hlinks' hpos
  obtain ⟨heq', _⟩ := Sched.taskSwitch_effect hapart hnodup hlinks' (hsame.active.trans hactive)
    (by omega) hlen hesp
  rw [hchosen] at heq'
  exact ⟨_, _, hmem _ (Sched.chosen_mem sk.sched pre post), heq, heq'⟩

theorem tickOk (h : Preparing kernelHeap s c pageDir x sk sched last p) (esp : UInt32) :
    x.TickOk c esp := by
  obtain ⟨next, ret, hnext, _, heq⟩ := h.switch esp.toNat_lt
  have hring := h.ticked.ring
  have htasks := h.ticked.tasks
  have hget : ∀ u, u ∈ s.tasks → ∀ f, x.state.sched.get u f = sk.sched.get u f := fun u hu =>
    h.keeps.get (h.ticked.recordsIn u hu)
  have hcur : x.state.sched.currentTask ∈ s.tasks := by
    rw [h.keeps.current]
    exact h.ticked.current
  have hclosed : ∀ u, u ∈ s.tasks → x.state.sched.get u .next ∈ s.tasks := by
    intro u hu
    rw [hget u hu, ← htasks]
    rw [← htasks] at hu
    exact hring.next_mem hu
  constructor
  · intro q hq h0
    have hmem := Sched.switchPath_mem hcur h.ticked.apart esp.toNat_lt (hclosed _ hcur)
      (fun u hu _ => hclosed u hu) q hq
    rw [h0, ← htasks] at hmem
    exact absurd (hring.range hmem).1 (Nat.lt_irrefl 0)
  · refine ⟨_, _, heq, SchedState.Resumes.mono ?_ c⟩
    have hstate := h.state
    have hcontext : ContextInv x.state := by
      rw [hstate]
      refine h.ticked.context.frame rfl rfl rfl rfl h.keeps.current (fun u hu => ?_) ?_
      · rw [htasks] at hu
        exact hget u hu .kstack
      · intro c' hc' _ q hq y hlow hhigh
        refine h.keeps.bytes q 4096 ?_ y hlow hhigh
        rw [← h.ticked.live]
        exact hring.owned _ (RingInv.created_block sk hc' hq)
    have hblocks : x.state.blocks = sk.blocks := by rw [hstate]; rfl
    have htasks' : x.state.tasks = s.tasks := by
      rw [hstate]
      exact htasks
    refine hcontext.resumes (fun q hq y hlow hhigh => ?_) ?_ (by rw [htasks']; exact hnext)
    · rw [hblocks] at hq
      rw [htasks', ← htasks]
      exact ContextInv.page_outside hring hq hlow hhigh
    · rw [htasks']
      exact Sched.switchTo_effect h.ticked.apart hcur hnext esp.toNat_lt

/-- The link is still to be stored. -/
theorem prog_next (h : Preparing kernelHeap s c pageDir x sk sched last p) :
    ∃ f rest, x.prog = .next f rest := by
  have hrun := h.run
  cases p with
  | done a =>
    obtain ⟨_, rfl⟩ := Prod.mk.inj (Option.some.inj hrun)
    exact ⟨_, _, h.prog⟩
  | stuck => cases hrun
  | next f rest => exact ⟨_, _, h.prog⟩

/-- A tick leaves `task_create` where it is. -/
theorem tick (h : Preparing kernelHeap s c pageDir x sk sched last p) (esp : UInt32) :
    ∃ sk' sched', Preparing kernelHeap s c pageDir (x.tick esp) sk' sched' last p := by
  obtain ⟨next, ret, hnext, hswitch, heq⟩ := h.switch esp.toNat_lt
  obtain ⟨sk', sched', hsk, hticked, hswitched⟩ := h.ticked.tick hnext hswitch
  have hcur : x.state.sched.currentTask ∈ s.tasks := by
    rw [h.keeps.current]
    exact h.ticked.current
  have hx : (x.tick esp).state =
      { sk' with sched := x.state.sched.switchTo esp.toNat next } := by
    have hstate := h.state
    simp only [Creation.tick, SchedState.step, heq, hsk]
    rw [hstate, ← h.keeps.current]
  have hxs : (x.tick esp).state.sched = x.state.sched.switchTo esp.toNat next :=
    congrArg SchedState.sched hx
  have hs := Sched.switchTo_switched h.ticked.apart hcur hnext esp.toNat_lt
  have hkeeps := h.keeps.switchTo h.ticked.recordsIn h.ticked.apart h.ticked.current hnext
    esp.toNat_lt
  have hsks : sk'.sched = sk.sched.switchTo esp.toNat next := congrArg SchedState.sched hsk
  rw [← hsks] at hkeeps
  obtain ⟨sched2, hrun, hswitched2, hkeeps2⟩ := h.insensitive.run (Sched.Keeps.refl s.live)
    (fun _ _ _ h1 h2 => h1.trans h2) hs h.run
  -- both ways lead to the same state in front of the link
  obtain rfl : sched2 = sched' := by
    refine Sched.Switched.eq_of_keeps ?_ h.ticked.recordsIn hticked.keeps (hkeeps.trans hkeeps2)
    have hR := Sched.Switched.equivalence s.tasks
    exact hR.trans (hR.symm hswitched) hswitched2
  refine ⟨sk', sched2, hticked, ?_, (x.tick_prog esp).trans h.prog, ?_, ?_, ?_⟩
  · rw [hxs]
    exact hx
  · rw [hxs]
    exact h.insensitive.congr (Sched.Switched.equivalence s.tasks) hs
  · rw [hxs]
    exact hrun
  · rw [hxs]
    exact hkeeps

end Preparing

/-! ## Between the two stores of the link -/

/-- The scheduler between these stores: the new task has no successor. -/
def Sched.halfLinked (sched : Sched) (c : CreatedTask) (last : Nat) : Sched :=
  sched.set last .next c.new.addr

/-- The scheduler when `task_create` is through. -/
def SchedState.linked (sk : SchedState) (c : CreatedTask) (sched : Sched) (last : Nat) :
    SchedState :=
  { sk with
    sched := (sched.halfLinked c last).set c.new.addr .next sched.taskQueue
    live := c.blocks ++ sk.live
    created := sk.created ++ [c] }

namespace Ticked

variable {kernelHeap : KernelHeap} {s sk : SchedState} {c : CreatedTask} {pageDir : UInt32}
  {sched : Sched} {last : Nat}

theorem linked_tasks (h : Ticked kernelHeap s c pageDir sk sched last) :
    (sk.linked c sched last).tasks = s.tasks ++ [c.new.addr] := by
  rw [SchedState.linked, RingInv.tasks_create, h.tasks]

/-- The ring is complete then. -/
theorem linked (h : Ticked kernelHeap s c pageDir sk sched last) :
    RingInv kernelHeap (sk.linked c sched last) ∧ ContextInv (sk.linked c sched last) := by
  have hallowed : sk.Allowed kernelHeap (.create c.entry pageDir c.isUser) :=
    ⟨sched, c.new, h.newTask, h.allocated⟩
  have hring := h.ring.create hallowed
  have hcontext := h.context.create h.ring hallowed
  have hcreate : sk.sched.taskCreate c.entry pageDir c.isUser =
      some ((sk.linked c sched last).sched, c.new.addr) := by
    rw [← Sched.taskCreateStores_run, Sched.taskCreateStores, Prog.run_bind, h.prepared]
    rfl
  simp only [SchedState.step, h.newTask, hcreate] at hring hcontext
  exact ⟨hring, hcontext⟩

theorem linked_apart (h : Ticked kernelHeap s c pageDir sk sched last) :
    RecordsApart (s.tasks ++ [c.new.addr]) := by
  have hapart := h.linked.1.apart
  rwa [h.linked_tasks] at hapart

theorem new_not_mem (h : Ticked kernelHeap s c pageDir sk sched last) : c.new.addr ∉ s.tasks := by
  have hnodup := h.linked.1.nodup
  rw [h.linked_tasks] at hnodup
  exact fun hmem => (List.nodup_append.mp hnodup).2.2 _ hmem _ (List.mem_singleton_self _) rfl

/-- The records are behind the null page. -/
theorem new_range (h : Ticked kernelHeap s c pageDir sk sched last) :
    0 < c.new.addr ∧ c.new.addr + taskStructSize < 2 ^ 32 :=
  h.linked.1.range (by rw [h.linked_tasks]; simp)

/-- Before the last store only the link of the new task is missing. -/
theorem halfLinked_get (h : Ticked kernelHeap s c pageDir sk sched last) {u : Nat}
    (hu : u ∈ s.tasks ++ [c.new.addr]) {f : TaskField} (hf : ¬ (u = c.new.addr ∧ f = .next)) :
    (sched.halfLinked c last).get u f = (sk.linked c sched last).sched.get u f := by
  obtain ⟨hring, _⟩ := h.linked
  have hqueue : sched.taskQueue < 2 ^ 32 := by
    have hq : sched.taskQueue = sk.idle := hring.queue
    have := hring.range (List.mem_cons_self : sk.idle ∈ _)
    omega
  exact ((Sched.get_set h.linked_apart (by simp) hu hqueue).trans (if_neg hf)).symm

theorem halfLinked_new (h : Ticked kernelHeap s c pageDir sk sched last) :
    (sched.halfLinked c last).get c.new.addr .next = 0 ∧
      (sched.halfLinked c last).get c.new.addr .state = taskReady := by
  obtain ⟨_, hready, _, _, hnext⟩ := Sched.newTask_effect h.ring.heap h.newTask h.allocated
  have hrange := h.new_range
  have hne : c.new.addr ≠ last := fun heq => h.new_not_mem (heq ▸ h.lastMem)
  have hget : ∀ f, (sched.halfLinked c last).get c.new.addr f = sched.get c.new.addr f := by
    intro f
    rw [Sched.halfLinked, Sched.get_set h.linked_apart (by simp [h.lastMem]) (by simp) (by omega),
      if_neg fun hc => hne hc.1]
  exact ⟨(hget .next).trans hnext, (hget .state).trans hready⟩

theorem halfLinked_same (h : Ticked kernelHeap s c pageDir sk sched last) :
    Sched.SameTasks s.tasks sk.sched (sched.halfLinked c last) := by
  have hrange := h.new_range
  refine ⟨fun u hu f hf => ?_, h.keeps.current, h.keeps.active, h.keeps.cr3⟩
  rw [Sched.halfLinked, Sched.get_set h.apart h.lastMem hu (by omega), if_neg fun hc => hf hc.2]
  exact h.keeps.get (h.recordsIn u hu) f

/-- The new task does not have the CPU. -/
theorem halfLinked_current (h : Ticked kernelHeap s c pageDir sk sched last) :
    (sched.halfLinked c last).currentTask ∈ s.tasks := by
  rw [h.halfLinked_same.current]
  exact h.current

/-- The links lead from the current task through those behind it to the new one. -/
theorem halfLinked_chain (h : Ticked kernelHeap s c pageDir sk sched last) {pre post : List Nat}
    (hsplit : s.tasks = pre ++ sk.sched.currentTask :: post) :
    Links (fun t => (sched.halfLinked c last).get t .next) (sk.sched.currentTask :: post)
      c.new.addr := by
  have hall := h.linked.1.links
  rw [h.linked_tasks, hsplit, List.append_assoc] at hall
  have hback := (links_append.mp (links_append.mp hall).2).1
  refine hback.congr fun u hu => ?_
  have hmem : u ∈ s.tasks := by
    rw [hsplit]
    exact List.mem_append_right _ hu
  exact h.halfLinked_get (List.mem_append_left _ hmem) fun hc => h.new_not_mem (hc.1 ▸ hmem)

/-- The search of a tick between the two stores ends at the new task, unless one of the tasks
behind the current one can run. -/
theorem halfLinked_search (h : Ticked kernelHeap s c pageDir sk sched last) {pre post : List Nat}
    (hsplit : s.tasks = pre ++ sk.sched.currentTask :: post) {esp : Nat} (hesp : esp < 2 ^ 32) :
    let w := sched.halfLinked c last
    (w.set w.currentTask .kstack esp).searchLoop (2 ^ 32)
        ((w.set w.currentTask .kstack esp).get w.currentTask .next) =
      some ((post.find? sk.sched.runnable).getD c.new.addr) := by
  intro w
  have hsame : Sched.SameTasks s.tasks sk.sched w := h.halfLinked_same
  have hcurrent : w.currentTask = sk.sched.currentTask := hsame.current
  have hcur : w.currentTask ∈ s.tasks := h.halfLinked_current
  have hbehind : ∀ u, u ∈ sk.sched.currentTask :: post → u ∈ s.tasks := fun u hu => by
    rw [hsplit]
    exact List.mem_append_right _ hu
  -- saving the stack pointer changes neither the links nor the states
  have hkeep : ∀ u, u ∈ s.tasks ++ [c.new.addr] → ∀ f, f ≠ .kstack →
      (w.set w.currentTask .kstack esp).get u f = w.get u f := by
    intro u hu f hf
    rw [Sched.get_set h.linked_apart (List.mem_append_left _ hcur) hu hesp,
      if_neg fun hc => hf hc.2]
  have hchain := (h.halfLinked_chain hsplit).congr fun u hu =>
    hkeep u (List.mem_append_left _ (hbehind u hu)) .next (by decide)
  have hrun : (w.set w.currentTask .kstack esp).runnable c.new.addr = true := by
    rw [Sched.runnable_congr (hkeep _ (by simp) .state (by decide)), Sched.runnable,
      h.halfLinked_new.2]
    rfl
  have hfind : post.find? (w.set w.currentTask .kstack esp).runnable =
      post.find? sk.sched.runnable := List.find?_congr fun u hu => by
    have hmem := hbehind u (List.mem_cons_of_mem _ hu)
    rw [Sched.runnable_congr (hkeep u (List.mem_append_left _ hmem) .state (by decide))]
    exact hsame.runnable hmem
  have hnodup := h.ring.nodup
  have hlen := h.ring.length_le
  rw [h.tasks, hsplit] at hnodup hlen
  have hpost : w.currentTask ∉ post := by
    rw [hcurrent]
    exact fun hmem =>
      (List.nodup_cons.mp (List.nodup_middle.mp hnodup)).1 (List.mem_append_right _ hmem)
  have hfirst : (w.set w.currentTask .kstack esp).get w.currentTask .next =
      post.headD c.new.addr := by
    have hhead := hchain.1
    rwa [← hcurrent] at hhead
  rw [hfirst, ← hfind]
  refine Sched.searchLoop_until hchain.2 hpost (fun heq => h.new_not_mem (heq ▸ hcur)) hrun ?_
  simp only [List.length_append, List.length_cons] at hlen
  omega

/-- A tick between the two stores gives the CPU to the new task when none of the tasks behind
the current one can run; otherwise the tick could as well have come before the call. -/
theorem halfLinked_switch (h : Ticked kernelHeap s c pageDir sk sched last) {esp : Nat}
    (hesp : esp < 2 ^ 32) : ∃ next, (sched.halfLinked c last).taskSwitch esp =
        some ((sched.halfLinked c last).switchTo esp next,
          ((sched.halfLinked c last).switchTo esp next).get next .kstack) ∧
      (next = c.new.addr ∨ next ∈ s.tasks ∧ ∃ ret,
        sk.sched.taskSwitch esp = some (sk.sched.switchTo esp next, ret)) := by
  obtain ⟨pre, post, hsplit, hlinks⟩ := h.ring.split
  have htasks := h.tasks
  rw [hsplit] at htasks
  have hsame := h.halfLinked_same
  have hpos := (h.ring.range h.ring.current).1
  have hstarted : (sched.halfLinked c last).currentTask ≠ 0 := by
    rw [hsame.current]
    omega
  refine ⟨_, Sched.taskSwitch_of_search (hsame.active.trans h.ring.active) hstarted
    (h.halfLinked_search htasks.symm hesp), ?_⟩
  cases hnext : post.find? sk.sched.runnable with
  | none => exact Or.inl rfl
  | some u =>
    have hmem : u ∈ s.tasks := by
      rw [← htasks]
      exact List.mem_append_right _ (List.mem_cons_of_mem _ (List.mem_of_find?_eq_some hnext))
    refine Or.inr ⟨hmem, ?_⟩
    have hchosen : sk.sched.chosen pre post = u := by
      rw [Sched.chosen, List.find?_append, hnext]
      rfl
    have hapart := h.ring.apart
    have hnodup := h.ring.nodup
    have hlen := h.ring.length_le
    rw [hsplit] at hapart hnodup hlen
    obtain ⟨heq, _⟩ := Sched.taskSwitch_effect hapart hnodup hlinks h.ring.active (by omega) hlen
      hesp
    rw [hchosen] at heq
    exact ⟨_, heq⟩

/-- A tick that gives the CPU to an older task leaves the same ring behind. -/
theorem halfLinked_tick (h : Ticked kernelHeap s c pageDir sk sched last) {sk' : SchedState}
    {sched' : Sched} (h' : Ticked kernelHeap s c pageDir sk' sched' last) {esp next : Nat}
    (hesp : esp < 2 ^ 32) (hnext : next ∈ s.tasks)
    (hsk : sk'.sched = sk.sched.switchTo esp next)
    (hswitched : Sched.Switched s.tasks sched sched') :
    (sched.halfLinked c last).switchTo esp next = sched'.halfLinked c last := by
  have hsame := h.halfLinked_same
  have hsame' := h'.halfLinked_same
  have hrange := h.new_range
  obtain ⟨hswitch, hesp0⟩ := hsame.switchTo h.apart h.current hnext hesp
  rw [hsk] at hsame'
  have hR := Sched.Switched.equivalence s.tasks
  have hdiff : Sched.Switched s.tasks (sched'.halfLinked c last)
      ((sched.halfLinked c last).switchTo esp next) :=
    hR.trans (hR.symm (hswitched.set h.apart h.lastMem .next (by omega)))
      (Sched.switchTo_switched h.apart h.halfLinked_current hnext hesp)
  refine hdiff.eq (fun u hu f => ?_) (hswitch.current.trans hsame'.current.symm) ?_
    (hswitch.cr3.trans hsame'.cr3.symm)
  · by_cases hf : f = .next
    · subst hf
      exact hdiff.field u hu .next (by decide) (by decide)
    · exact (hswitch.field u hu f hf).trans (hsame'.field u hu f hf).symm
  · rw [hesp0, ← hsk]
    exact h'.keeps.esp0.symm

/-- No tick follows a null pointer as long as the new task does not have the CPU. -/
theorem halfLinked_path (h : Ticked kernelHeap s c pageDir sk sched last) {esp p : Nat}
    (hesp : esp < 2 ^ 32) (hp : p ∈ (sched.halfLinked c last).switchPath esp) : p ≠ 0 := by
  obtain ⟨hring, _⟩ := h.linked
  have hcur := h.halfLinked_current
  have hold : ∀ u, u ∈ s.tasks →
      (sched.halfLinked c last).get u .next ∈ s.tasks ++ [c.new.addr] := by
    intro u hu
    have hmem : u ∈ s.tasks ++ [c.new.addr] := List.mem_append_left _ hu
    rw [h.halfLinked_get hmem fun hc => h.new_not_mem (hc.1 ▸ hu), ← h.linked_tasks]
    rw [← h.linked_tasks] at hmem
    exact hring.next_mem hmem
  have hmem := Sched.switchPath_mem (List.mem_append_left _ hcur) h.linked_apart hesp
    (hold _ hcur) (fun u hu hrun => ?_) p hp
  · rw [← h.linked_tasks] at hmem
    have := (hring.range hmem).1
    omega
  · rcases List.mem_append.mp hu with hu | hu
    · exact hold u hu
    · -- the new task can run, so that the search ends there
      rw [List.mem_singleton.mp hu, Sched.runnable, h.halfLinked_new.2] at hrun
      exact absurd hrun (by decide)

/-- The saved contexts are complete between the two stores. -/
theorem halfLinked_resumes (h : Ticked kernelHeap s c pageDir sk sched last) {esp next : Nat}
    (hesp : esp < 2 ^ 32) (hnext : next ∈ s.tasks ++ [c.new.addr]) :
    SchedState.Resumes { sk with sched := sched.halfLinked c last, created := sk.created ++ [c] }
      esp ((sched.halfLinked c last).switchTo esp next)
      (((sched.halfLinked c last).switchTo esp next).get next .kstack) := by
  obtain ⟨hring, hcontext⟩ := h.linked
  have htasks := h.linked_tasks
  have hcur := h.halfLinked_current
  have hcontext' : ContextInv { sk.linked c sched last with sched := sched.halfLinked c last } := by
    refine hcontext.frame rfl rfl rfl rfl rfl (fun u hu => ?_) ?_
    · rw [htasks] at hu
      exact h.halfLinked_get hu (by simp)
    · intro c' hc' _ q hq x hlow hhigh
      have hout := ContextInv.page_outside hring (RingInv.created_block _ hc' hq) hlow hhigh
      exact (Sched.set_outside (hout c.new.addr (by rw [htasks]; simp))).symm
  refine hcontext'.resumes (fun q hq x => ContextInv.page_outside hring hq) ?_ ?_
  · show Sched.SwitchEffect _ _ (sk.linked c sched last).tasks esp next
    rw [htasks]
    exact Sched.switchTo_effect h.linked_apart (List.mem_append_left _ hcur) hnext hesp
  · show next ∈ (sk.linked c sched last).tasks
    rw [htasks]
    exact hnext

end Ticked

/-! ## All runs -/

/-- Where `task_create` can be when every tick met `LinkedFirst`. -/
inductive Progress (kernelHeap : KernelHeap) (s : SchedState) (c : CreatedTask) (pageDir : UInt32)
    (x : Creation) : Prop
  | preparing {sk : SchedState} {sched : Sched} {last : Nat}
      {p : Prog Sched (Sched.NewTask × Option Nat)} :
      Preparing kernelHeap s c pageDir x sk sched last p → Progress kernelHeap s c pageDir x
  | halfLinked {sk : SchedState} {sched : Sched} {last : Nat} :
      Ticked kernelHeap s c pageDir sk sched last →
      x.state = { sk with sched := sched.halfLinked c last } →
      (x.prog = Sched.storeField c.new.addr .next (fun s => s.taskQueue) >>= fun _ =>
        pure c.new.addr) → Progress kernelHeap s c pageDir x
  /-- The new task got the CPU too early. -/
  | early :
      x.state.sched.currentTask = c.new.addr → x.state.sched.schedulerActive = true →
      x.state.sched.get c.new.addr .next = 0 →
      (x.prog = Sched.storeField c.new.addr .next (fun s => s.taskQueue) >>= fun _ =>
        pure c.new.addr) → Progress kernelHeap s c pageDir x
  | finished : x.prog = .done c.new.addr → x.state.tasks = s.tasks →
      RingInv kernelHeap
        { x.state with live := c.blocks ++ s.live, created := x.state.created ++ [c] } →
      ContextInv { x.state with live := c.blocks ++ s.live, created := x.state.created ++ [c] } →
      Progress kernelHeap s c pageDir x

section Progress

variable {kernelHeap : KernelHeap} {s : SchedState} {c : CreatedTask} {pageDir : UInt32}
  {x : Creation}

theorem Creation.not_finished {f : Sched → Sched} {rest : Sched → Prog Sched Nat}
    (h : x.prog = .next f rest) : ¬ x.Finished := by
  rintro ⟨t, ht⟩
  rw [h] at ht
  cases ht

/-- A step of `task_create`. -/
theorem Progress.proceed (h : Progress kernelHeap s c pageDir x) (hnew : c.new.addr ∉ s.tasks)
    (hcreator : x.creator ∈ s.tasks) (hcur : x.state.sched.currentTask = x.creator) :
    Progress kernelHeap s c pageDir x.proceed := by
  cases h with
  | @preparing sk sched last p hprep =>
    obtain ⟨hticked, hstate, hprog, hins, hrun, hkeeps⟩ := hprep
    cases p with
    | done a =>
      obtain ⟨hsched, rfl⟩ := Prod.mk.inj (Option.some.inj hrun)
      have hx : x.proceed = { x with
          state := { x.state with sched := x.state.sched.halfLinked c last }
          prog := Sched.storeField c.new.addr .next (fun s => s.taskQueue) >>= fun _ =>
            pure c.new.addr } := by
        rw [Creation.proceed, hprog]
        rfl
      rw [hx]
      refine .halfLinked hticked ?_ rfl
      rw [hsched, hstate]
    | stuck => cases hrun
    | next f rest =>
      have hx : x.proceed = { x with
          state := { x.state with sched := f x.state.sched }
          prog := rest x.state.sched >>= fun r => Sched.linkStores r.1.addr r.2 } := by
        rw [Creation.proceed, hprog]
        rfl
      have hstep := (hins.1 _ ((Sched.Switched.equivalence s.tasks).refl _)).2.1
      rw [hx]
      refine .preparing ⟨hticked, ?_, rfl, hins.2, hrun, hkeeps.trans hstep⟩
      rw [hstate]
  | @halfLinked sk sched last hticked hstate hprog =>
    have hx : x.proceed = { x with
        state := { x.state with
          sched := x.state.sched.set c.new.addr .next x.state.sched.taskQueue }
        prog := .done c.new.addr } := by
      rw [Creation.proceed, hprog]
      rfl
    obtain ⟨hring, hcontext⟩ := hticked.linked
    rw [hx]
    refine .finished rfl ?_ ?_ ?_
    · rw [hstate]
      exact hticked.tasks
    · rw [hstate, ← hticked.live]
      exact hring
    · rw [hstate, ← hticked.live]
      exact hcontext
  | early hearly => exact absurd (hearly ▸ hcur ▸ hcreator) hnew
  | finished hprog htasks hring hcontext =>
    have hx : x.proceed = x := by rw [Creation.proceed, hprog]
    rw [hx]
    exact .finished hprog htasks hring hcontext

/-- A tick that comes in time. -/
theorem Progress.tick (h : Progress kernelHeap s c pageDir x) (hfirst : x.LinkedFirst c)
    (esp : UInt32) : x.TickOk c esp ∧ Progress kernelHeap s c pageDir (x.tick esp) := by
  cases h with
  | preparing hprep =>
    obtain ⟨sk', sched', hprep'⟩ := hprep.tick esp
    exact ⟨hprep.tickOk esp, .preparing hprep'⟩
  | @halfLinked sk sched last hticked hstate hprog =>
    obtain ⟨next, heq, hnext⟩ := hticked.halfLinked_switch esp.toNat_lt
    have hmem : next ∈ s.tasks ++ [c.new.addr] := by
      rcases hnext with rfl | ⟨hmem, _⟩
      · simp
      · exact List.mem_append_left _ hmem
    have hxs : x.state.sched = sched.halfLinked c last := congrArg SchedState.sched hstate
    constructor
    · refine ⟨fun p hp => ?_, ?_⟩
      · rw [hxs] at hp
        exact hticked.halfLinked_path esp.toNat_lt hp
      · rw [hstate]
        exact ⟨_, _, heq, hticked.halfLinked_resumes esp.toNat_lt hmem⟩
    · have hx : (x.tick esp).state = { sk with
          sched := (sched.halfLinked c last).switchTo esp.toNat next
          switches := (sk.sched.currentTask, esp.toNat) :: sk.switches } := by
        simp only [Creation.tick, SchedState.step, hstate, heq, hticked.halfLinked_same.current]
      rcases hnext with rfl | ⟨hold, ret, hswitch⟩
      · have heff := Sched.switchTo_effect hticked.linked_apart
          (List.mem_append_left _ hticked.halfLinked_current) hmem esp.toNat_lt
        have hxs' := congrArg SchedState.sched hx
        refine .early ?_ ?_ ?_ ((x.tick_prog esp).trans hprog)
        · rw [hxs']
          exact heff.current
        · rw [hxs']
          exact heff.active.trans (hticked.halfLinked_same.active.trans hticked.ring.active)
        · rw [hxs']
          exact (heff.field _ hmem .next (by decide) (by decide)).trans hticked.halfLinked_new.1
      · obtain ⟨sk', sched', hsk, hticked', hswitched⟩ := hticked.tick hold hswitch
        refine .halfLinked hticked' ?_ ((x.tick_prog esp).trans hprog)
        rw [hx, hsk, hticked.halfLinked_tick hticked' esp.toNat_lt hold
          (congrArg SchedState.sched hsk) hswitched]
  | early hearly _ _ hprog =>
    rcases hfirst with hfinished | hne
    · exact absurd hfinished (Creation.not_finished hprog)
    · exact absurd hearly hne
  | finished hprog htasks hring hcontext =>
    obtain ⟨sched, next, heq, heff, hnext, _, hring'⟩ := hring.switch esp.toNat_lt
    have hx : (x.tick esp).state = { x.state with
        sched := sched
        switches := (x.state.sched.currentTask, esp.toNat) :: x.state.switches } := by
      simp only [Creation.tick, SchedState.step, heq]
    refine ⟨⟨fun p hp h0 => ?_, sched, _, heq, ?_⟩,
      .finished ((x.tick_prog esp).trans hprog) ?_ ?_ ?_⟩
    · have hmem := Sched.switchPath_mem hring.current hring.apart esp.toNat_lt
        (hring.next_mem hring.current) (fun u hu _ => hring.next_mem hu) p hp
      rw [h0] at hmem
      exact absurd (hring.range hmem).1 (Nat.lt_irrefl 0)
    · exact hcontext.resumes (fun _ hp _ => ContextInv.page_outside hring hp) heff hnext
    · rw [hx]
      exact htasks
    · rw [hx]
      exact hring'
    · rw [hx]
      exact hcontext.switch hring heff

/-- A tick that comes too early follows a null pointer. -/
theorem Progress.not_tickOk (h : Progress kernelHeap s c pageDir x) (hnew : c.new.addr ∉ s.tasks)
    (hpos : c.new.addr ≠ 0) (hfirst : ¬ x.LinkedFirst c) (esp : UInt32) : ¬ x.TickOk c esp := by
  obtain ⟨hunfinished, hcur⟩ := not_or.mp hfirst
  rw [ne_eq, not_not] at hcur
  cases h with
  | preparing hprep =>
    refine absurd ?_ hnew
    rw [← hcur, hprep.keeps.current]
    exact hprep.ticked.current
  | halfLinked hticked hstate =>
    refine absurd ?_ hnew
    rw [← hcur, hstate]
    exact hticked.halfLinked_current
  | early _ hactive hnext =>
    intro hok
    refine hok.1 0 ?_ rfl
    have hstarted : ¬ (x.state.sched.schedulerActive = false ∨ x.state.sched.currentTask = 0) := by
      rw [hactive, hcur]
      simp [hpos]
    have hzero : (x.state.sched.set x.state.sched.currentTask .kstack esp.toNat).get
        x.state.sched.currentTask .next = 0 := by
      rw [Sched.get_set_field (by decide), hcur, hnext]
    rw [Sched.switchPath, if_neg hstarted]
    show 0 ∈ Sched.searchPath _ (2 ^ 32)
      ((x.state.sched.set _ .kstack esp.toNat).get x.state.sched.currentTask .next)
    rw [hzero]
    exact Sched.mem_searchPath (by decide)
  | finished hprog => exact absurd ⟨_, hprog⟩ hunfinished

theorem Progress.not_stuck (h : Progress kernelHeap s c pageDir x) : x.prog ≠ .stuck := by
  intro hstuck
  cases h with
  | preparing hprep =>
    obtain ⟨f, rest, hprog⟩ := hprep.prog_next
    cases hstuck.symm.trans hprog
  | halfLinked _ _ hprog => cases hstuck.symm.trans hprog
  | early _ _ _ hprog => cases hstuck.symm.trans hprog
  | finished hprog => cases hstuck.symm.trans hprog

/-- The ring when `task_create` has returned. -/
theorem Progress.ring (h : Progress kernelHeap s c pageDir x) {t : Nat} (ht : x.prog = .done t) :
    t = c.new.addr ∧ IsCycle (fun t => x.state.sched.get t .next) x.state.sched.taskQueue
      (s.tasks ++ [c.new.addr]) := by
  cases h with
  | preparing hprep =>
    obtain ⟨f, rest, hprog⟩ := hprep.prog_next
    cases ht.symm.trans hprog
  | halfLinked _ _ hprog => cases ht.symm.trans hprog
  | early _ _ _ hprog => cases ht.symm.trans hprog
  | finished hprog htasks hring =>
    refine ⟨Prog.done.inj (ht.symm.trans hprog), ?_⟩
    have hqueue : x.state.sched.taskQueue = x.state.idle := hring.queue
    have hcycle := hring.links.cycle hring.nodup
    rw [← htasks, hqueue]
    simp only [SchedState.tasks, List.map_append, List.map_cons, List.map_nil] at hcycle ⊢
    exact hcycle

end Progress

theorem CreateRun.creator {x0 x : Creation} {ticks : List (Creation × UInt32)}
    (h : CreateRun x0 x ticks) : x.creator = x0.creator := by
  induction h with
  | nil => rfl
  | @proceed x _ _ _ ih =>
    rw [← ih, Creation.proceed]
    split <;> rfl
  | tick _ ih => exact ih

/-- As long as no tick comes too early, `task_create` makes progress and all ticks are right. -/
theorem CreateRun.progress {kernelHeap : KernelHeap} {s : SchedState} {c : CreatedTask}
    {pageDir : UInt32} {x0 x : Creation} {ticks : List (Creation × UInt32)}
    (h0 : Progress kernelHeap s c pageDir x0) (hnew : c.new.addr ∉ s.tasks)
    (hcreator : x0.creator ∈ s.tasks) (h : CreateRun x0 x ticks)
    (hfirst : ∀ y esp, (y, esp) ∈ ticks → y.LinkedFirst c) :
    Progress kernelHeap s c pageDir x ∧ ∀ y esp, (y, esp) ∈ ticks → y.TickOk c esp := by
  induction h with
  | nil => exact ⟨h0, fun _ _ hmem => absurd hmem List.not_mem_nil⟩
  | proceed hrun hcur ih =>
    obtain ⟨hprogress, hticks⟩ := ih hfirst
    exact ⟨hprogress.proceed hnew (by rw [hrun.creator]; exact hcreator) hcur, hticks⟩
  | @tick x ticks esp _ ih =>
    obtain ⟨hprogress, hticks⟩ := ih fun y e hmem => hfirst y e (List.mem_cons_of_mem _ hmem)
    obtain ⟨hok, hprogress'⟩ := hprogress.tick (hfirst x esp List.mem_cons_self) esp
    refine ⟨hprogress', fun y e hmem => ?_⟩
    rcases List.mem_cons.mp hmem with heq | hmem
    · obtain ⟨rfl, rfl⟩ := Prod.mk.inj heq
      exact hok
    · exact hticks y e hmem

/-- Interrupts during `task_create`, in every state of a run and for calls of `kmalloc` that
succeed. In a run of `task_create` with ticks between its stores
* every tick follows non-null pointers only and ends with a current task whose saved frame is
  complete, no loop of `task_create` is endless, and when it has returned, the ring contains all
  tasks once,

if and only if
* no tick comes while the new task has the CPU and `task_create` has not returned. -/
theorem create_ticks_iff {kernelHeap : KernelHeap} {s : SchedState}
    (h : (schedRuns kernelHeap).Reachable s) {entry pageDir isUser : UInt32} {sched : Sched}
    {new : Sched.NewTask} (hnew : s.sched.newTask entry pageDir isUser = some (sched, new))
    (hok : CreatedTask.Allocated ⟨new, entry, isUser⟩) {x : Creation}
    {ticks : List (Creation × UInt32)}
    (hrun : CreateRun (Creation.start s entry pageDir isUser) x ticks) :
    ((∀ y esp, (y, esp) ∈ ticks → y.TickOk ⟨new, entry, isUser⟩ esp) ∧ x.prog ≠ .stuck ∧
      ∀ t, x.prog = .done t → t = new.addr ∧ IsCycle (fun t => x.state.sched.get t .next)
        x.state.sched.taskQueue (s.tasks ++ [new.addr])) ↔
    ∀ y esp, (y, esp) ∈ ticks → y.LinkedFirst ⟨new, entry, isUser⟩ := by
  obtain ⟨hring, _⟩ := reachable_ringInv h
  obtain ⟨last, hprep⟩ := Preparing.start hring (reachable_contextInv h) hnew hok
  have hstart : Progress kernelHeap s ⟨new, entry, isUser⟩ pageDir
      (Creation.start s entry pageDir isUser) := .preparing hprep
  have hfresh : new.addr ∉ s.tasks := hprep.ticked.new_not_mem
  constructor
  · rintro ⟨hticks, -⟩
    -- the first tick that came too early would have followed a null pointer
    induction hrun with
    | nil => exact fun _ _ hmem => absurd hmem List.not_mem_nil
    | proceed _ _ ih => exact ih hticks
    | @tick x ticks esp hrun ih =>
      have hfirst := ih fun y e hmem => hticks y e (List.mem_cons_of_mem _ hmem)
      obtain ⟨hprogress, _⟩ := hrun.progress hstart hfresh hring.current hfirst
      intro y e hmem
      rcases List.mem_cons.mp hmem with heq | hmem
      · obtain ⟨rfl, rfl⟩ := Prod.mk.inj heq
        by_contra hearly
        exact hprogress.not_tickOk hfresh hok.1 hearly e (hticks y e List.mem_cons_self)
      · exact hfirst y e hmem
  · intro hfirst
    obtain ⟨hprogress, hticks⟩ := hrun.progress hstart hfresh hring.current hfirst
    exact ⟨hticks, hprogress.not_stuck, fun t ht => hprogress.ring ht⟩

/-! ### A run -/

/-- The caller makes `n` steps, while it has the CPU. -/
def Creation.proceeds : Nat → Creation → Option Creation
  | 0, x => some x
  | n + 1, x => if x.state.sched.currentTask = x.creator then x.proceed.proceeds n else none

theorem CreateRun.proceeds {x0 x y : Creation} {ticks : List (Creation × UInt32)} {n : Nat}
    (h : CreateRun x0 x ticks) (hn : x.proceeds n = some y) : CreateRun x0 y ticks := by
  induction n generalizing x with
  | zero =>
    obtain rfl := Option.some.inj hn
    exact h
  | succ n ih =>
    rw [Creation.proceeds] at hn
    split at hn
    next hcur => exact ih (.proceed h hcur) hn
    next => cases hn

/-- PID 0 creates the first user task. -/
def sampleCreation : Creation := Creation.start sampleStart 0x1000 0 1

theorem sampleCreation_proceeds : (sampleCreation.proceeds 108).isSome = true := by
  decide +kernel

/-- All stores are done but the last one. -/
def sampleHalfLinked : Creation := (sampleCreation.proceeds 108).get sampleCreation_proceeds

theorem sampleHalfLinked_run : CreateRun sampleCreation sampleHalfLinked [] :=
  CreateRun.nil.proceeds (Option.some_get sampleCreation_proceeds).symm

/-- The memory for it is there. -/
theorem sampleStart_creates : ∃ sched new,
    sampleStart.sched.newTask 0x1000 0 1 = some (sched, new) ∧
      CreatedTask.Allocated ⟨new, 0x1000, 1⟩ ∧ new.addr = 0x100034 := by
  obtain ⟨sched, new, hnew, hok⟩ := create_allowed sampleHeap (s := sampleStart)
    (show (sampleStart.sched.newTask 0x1000 0 1).any (fun r =>
      decide (CreatedTask.Allocated ⟨r.2, 0x1000, 1⟩)) = true by decide +kernel)
  have hmap : (sampleStart.sched.newTask 0x1000 0 1).map (fun r => r.2.addr) =
      some 0x100034 := by decide +kernel
  rw [hnew] at hmap
  exact ⟨sched, new, hnew, hok, Option.some.inj hmap⟩

/-- A tick between the last two stores gives the CPU to the new task, whose frame is
complete. -/
theorem create_ticks_sample : ∃ c : CreatedTask, c.new.addr = 0x100034 ∧
    sampleHalfLinked.TickOk c 0x9000 ∧
    (sampleHalfLinked.tick 0x9000).state.sched.currentTask = 0x100034 := by
  obtain ⟨sched, new, hnew, hok, haddr⟩ := sampleStart_creates
  refine ⟨⟨new, 0x1000, 1⟩, haddr, ?_, by decide +kernel⟩
  refine ((create_ticks_iff sampleStart_reachable hnew hok
    (CreateRun.tick sampleHalfLinked_run)).mpr ?_).1 _ _ List.mem_cons_self
  intro y esp hmem
  obtain ⟨rfl, rfl⟩ := Prod.mk.inj (List.mem_singleton.mp hmem)
  refine Or.inr ?_
  show sampleHalfLinked.state.sched.currentTask ≠ new.addr
  rw [haddr]
  decide +kernel

/-- The next tick follows the null pointer of the new task. -/
theorem early_tick_null : ¬ ∀ (kernelHeap : KernelHeap) (s : SchedState)
    (entry pageDir isUser : UInt32) (sched : Sched) (new : Sched.NewTask) (x : Creation)
    (ticks : List (Creation × UInt32)), (schedRuns kernelHeap).Reachable s →
    s.sched.newTask entry pageDir isUser = some (sched, new) →
    CreatedTask.Allocated ⟨new, entry, isUser⟩ →
    CreateRun (Creation.start s entry pageDir isUser) x ticks →
    ∀ y esp, (y, esp) ∈ ticks → y.TickOk ⟨new, entry, isUser⟩ esp := by
  intro hall
  obtain ⟨sched, new, hnew, hok, _⟩ := sampleStart_creates
  have hrun : CreateRun sampleCreation ((sampleHalfLinked.tick 0x9000).tick 0x8000) _ :=
    .tick (.tick sampleHalfLinked_run)
  have hok2 := hall sampleHeap sampleStart 0x1000 0 1 sched new _ _ sampleStart_reachable hnew hok
    hrun _ _ List.mem_cons_self
  exact hok2.1 0 (by decide +kernel) rfl

end Newrex
