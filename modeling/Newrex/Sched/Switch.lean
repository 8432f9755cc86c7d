import Mathlib.Data.List.Find
import Mathlib.Data.List.Nodup
import Newrex.Heap.Invariant
import Newrex.Lib.Ring
import Newrex.Sched.Basic

/-!
# Switching tasks

What `task_switch` does when the `next` fields link the tasks into a ring:

* `searchLoop_ring`: the loop ends, at the first runnable task behind the current one,
  or at the current task when there is none;
* `taskSwitch_effect`: the fields and bytes that change, as `SwitchEffect`.
-/

namespace Newrex

open LittleEndian Ring

/-- The records of different tasks do not overlap. -/
def RecordsApart (ts : List Nat) : Prop :=
  ∀ t, t ∈ ts → ∀ u, u ∈ ts → t ≠ u → t + taskStructSize ≤ u ∨ u + taskStructSize ≤ t

/-- Byte `x` belongs to no record. -/
def OutsideRecords (ts : List Nat) (x : Nat) : Prop :=
  ∀ t, t ∈ ts → x < t ∨ t + taskStructSize ≤ x

namespace Sched

variable {s s' : Sched} {ts l : List Nat} {t u v : Nat} {f g : TaskField}

/-! ## Fields of task records -/

theorem offset_lt (f : TaskField) : f.offset + 4 ≤ taskStructSize := by
  cases f <;> decide

theorem offset_apart (h : f ≠ g) : f.offset + 4 ≤ g.offset ∨ g.offset + 4 ≤ f.offset := by
  revert h
  cases f <;> cases g <;> decide

/-- A field depends only on the bytes of its record. -/
theorem get_congr (h : ∀ x, t ≤ x → x < t + taskStructSize → s'.heap.mem x = s.heap.mem x)
    (f : TaskField) : s'.get t f = s.get t f := by
  have := offset_lt f
  exact load_congr fun i hi => h _ (by omega) (by omega)

theorem get_set_same (hv : v < 2 ^ 32) : (s.set t f v).get t f = v :=
  load_store_word hv

theorem get_set_field (h : g ≠ f) : (s.set t f v).get t g = s.get t g := by
  have := offset_apart h
  exact load_store_disjoint (by omega)

theorem get_set_other (h : t + taskStructSize ≤ u ∨ u + taskStructSize ≤ t) :
    (s.set t f v).get u g = s.get u g := by
  have hf := offset_lt f
  have hg := offset_lt g
  exact load_store_disjoint (by omega)

theorem get_set (hapart : RecordsApart ts) (ht : t ∈ ts) (hu : u ∈ ts) (hv : v < 2 ^ 32) :
    (s.set t f v).get u g = if u = t ∧ g = f then v else s.get u g := by
  by_cases hut : u = t
  · subst hut
    by_cases hgf : g = f
    · subst hgf
      rw [if_pos ⟨rfl, rfl⟩, get_set_same hv]
    · rw [if_neg fun h => hgf h.2, get_set_field hgf]
  · rw [if_neg fun h => hut h.1, get_set_other (hapart t ht u hu (Ne.symm hut))]

theorem set_outside {x : Nat} (h : x < t ∨ t + taskStructSize ≤ x) :
    (s.set t f v).heap.mem x = s.heap.mem x := by
  have := offset_lt f
  exact store_outside (by omega)

/-! ## The search loop -/

/-- The search through the tasks `l` in front of the current one. The induction
follows the list. -/
theorem searchLoop_links {fuel : Nat} (hlinks : Links (fun t => s.get t .next) l s.currentTask)
    (hcur : s.currentTask ∉ l) (hne : l ≠ []) (hfuel : l.length ≤ fuel) :
    s.searchLoop fuel (l.headD s.currentTask) =
      some ((l.find? s.runnable).getD s.currentTask) := by
  induction l generalizing fuel with
  | nil => exact absurd rfl hne
  | cons x l ih =>
    obtain ⟨fuel, rfl⟩ : ∃ k, fuel = k + 1 := ⟨fuel - 1, by simp at hfuel; omega⟩
    obtain ⟨hx, hl⟩ := hlinks
    rw [List.headD_cons, searchLoop, List.find?_cons]
    cases hrun : s.runnable x with
    | true => rfl
    | false =>
      simp only [hx, Bool.false_eq_true, if_false]
      cases l with
      | nil => rw [List.headD_nil, if_pos rfl]; rfl
      | cons y l =>
        have hy : y ≠ s.currentTask := fun heq => hcur (by rw [← heq]; simp)
        rw [List.headD_cons, if_neg hy]
        exact ih hl (fun hmem => hcur (List.mem_cons_of_mem x hmem)) (List.cons_ne_nil y l)
          (by simp at hfuel ⊢; omega)

/-- The search ends, at the first runnable task behind the current one. -/
theorem searchLoop_ring {fuel : Nat}
    (hlinks : Links (fun t => s.get t .next) (s.currentTask :: l) s.currentTask)
    (hcur : s.currentTask ∉ l) (hfuel : l.length < fuel) :
    s.searchLoop fuel (s.get s.currentTask .next) =
      some ((l.find? s.runnable).getD s.currentTask) := by
  have hnext : s.get s.currentTask .next = l.headD s.currentTask := hlinks.1
  cases l with
  | nil =>
    -- the only task is its own successor, whether it is runnable or not
    obtain ⟨fuel, rfl⟩ : ∃ k, fuel = k + 1 := ⟨fuel - 1, by simp at hfuel; omega⟩
    rw [List.headD_nil] at hnext
    rw [hnext, searchLoop, hnext, if_pos rfl, ite_self]
    rfl
  | cons x l =>
    rw [hnext]
    exact searchLoop_links hlinks.2 hcur (List.cons_ne_nil x l) (Nat.le_of_lt hfuel)

/-! ## The effect of a switch -/

/-- The switch from `s` to `s'` saves `esp` and gives the CPU to the task `next`. -/
structure SwitchEffect (s s' : Sched) (ts : List Nat) (esp next : Nat) : Prop where
  current : s'.currentTask = next
  queue : s'.taskQueue = s.taskQueue
  active : s'.schedulerActive = s.schedulerActive
  head : s'.heap.heapHead = s.heap.heapHead
  esp0 : s'.tssEsp0 = s'.get next .kstackTopPage
  kstack : ∀ u, u ∈ ts → s'.get u .kstack = if u = s.currentTask then esp else s.get u .kstack
  state : ∀ u, u ∈ ts → s'.get u .state =
    if u = next then taskRunning
    else if u = s.currentTask ∧ s.get u .state = taskRunning then taskReady
    else s.get u .state
  field : ∀ u, u ∈ ts → ∀ f, f ≠ .kstack → f ≠ .state → s'.get u f = s.get u f
  mem : ∀ x, OutsideRecords ts x → s'.heap.mem x = s.heap.mem x

theorem loadPageDirectory_eq (s : Sched) : ∃ cr3, s.loadPageDirectory = { s with cr3 } := by
  unfold loadPageDirectory
  split
  · exact ⟨_, rfl⟩
  · exact ⟨s.cr3, rfl⟩

/-- The first half of `dispatch`: the current task leaves the state RUNNING. -/
def preempt (s : Sched) : Sched :=
  if s.get s.currentTask .state = taskRunning then s.set s.currentTask .state taskReady else s

theorem preempt_vars (s : Sched) : s.preempt.taskQueue = s.taskQueue ∧
    s.preempt.schedulerActive = s.schedulerActive ∧
    s.preempt.heap.heapHead = s.heap.heapHead := by
  unfold preempt
  split <;> exact ⟨rfl, rfl, rfl⟩

theorem preempt_get (hapart : RecordsApart ts) (hcur : s.currentTask ∈ ts) (hu : u ∈ ts)
    (g : TaskField) : s.preempt.get u g =
      if u = s.currentTask ∧ g = .state ∧ s.get u .state = taskRunning then taskReady
      else s.get u g := by
  unfold preempt
  split
  next hrun =>
    rw [get_set hapart hcur hu (by decide)]
    by_cases hu' : u = s.currentTask
    · subst hu'
      simp [hrun]
    · simp [hu']
  next hrun =>
    by_cases hu' : u = s.currentTask
    · subst hu'
      simp [hrun]
    · simp [hu']

theorem preempt_mem (hcur : s.currentTask ∈ ts) {x : Nat} (hx : OutsideRecords ts x) :
    s.preempt.heap.mem x = s.heap.mem x := by
  unfold preempt
  split
  · exact set_outside (hx _ hcur)
  · rfl

/-- The second half: the task `next` enters the state RUNNING. -/
theorem dispatch_eq (s : Sched) (next : Nat) : ∃ cr3, s.dispatch next =
    { (s.preempt.setCurrentTask next).set next .state taskRunning with
      tssEsp0 := ((s.preempt.setCurrentTask next).set next .state taskRunning).get next
        .kstackTopPage
      cr3 := cr3 } := by
  have hs : s.dispatch next = loadPageDirectory
      { (s.preempt.setCurrentTask next).set next .state taskRunning with
        tssEsp0 := ((s.preempt.setCurrentTask next).set next .state taskRunning).get next
          .kstackTopPage } := rfl
  rw [hs]
  generalize (s.preempt.setCurrentTask next).set next .state taskRunning = s2
  exact loadPageDirectory_eq { s2 with tssEsp0 := s2.get next .kstackTopPage }

theorem dispatch_get {next : Nat} (hapart : RecordsApart ts) (hnext : next ∈ ts) (hu : u ∈ ts)
    (g : TaskField) : (s.dispatch next).get u g =
      if u = next ∧ g = .state then taskRunning else s.preempt.get u g := by
  obtain ⟨cr3, hd⟩ := s.dispatch_eq next
  generalize s.preempt = s1 at hd ⊢
  have hset : ((s1.setCurrentTask next).set next .state taskRunning).get u g =
      if u = next ∧ g = .state then taskRunning else s1.get u g :=
    get_set (s := s1.setCurrentTask next) hapart hnext hu (by decide)
  rw [hd]
  exact hset

theorem dispatch_vars (s : Sched) (next : Nat) : (s.dispatch next).currentTask = next ∧
    (s.dispatch next).taskQueue = s.taskQueue ∧
    (s.dispatch next).schedulerActive = s.schedulerActive ∧
    (s.dispatch next).heap.heapHead = s.heap.heapHead ∧
    (s.dispatch next).tssEsp0 = (s.dispatch next).get next .kstackTopPage := by
  obtain ⟨cr3, hd⟩ := s.dispatch_eq next
  obtain ⟨hqueue, hactive, hhead⟩ := s.preempt_vars
  generalize s.preempt = s1 at hd hqueue hactive hhead
  rw [hd]
  exact ⟨rfl, hqueue, hactive, hhead, rfl⟩

theorem dispatch_mem {next x : Nat} (hcur : s.currentTask ∈ ts) (hnext : next ∈ ts)
    (hx : OutsideRecords ts x) : (s.dispatch next).heap.mem x = s.heap.mem x := by
  obtain ⟨cr3, hd⟩ := s.dispatch_eq next
  have hmem := preempt_mem hcur hx
  generalize s.preempt = s1 at hd hmem
  rw [hd]
  exact (set_outside (hx _ hnext)).trans hmem

/-- What a switch never touches. -/
theorem dispatch_rest (s : Sched) (next : Nat) : (s.dispatch next).nextPid = s.nextPid ∧
    (s.dispatch next).console = s.console ∧
    (s.dispatch next).heap.totalBytesAllocated = s.heap.totalBytesAllocated ∧
    (s.dispatch next).heap.trace = s.heap.trace := by
  obtain ⟨cr3, hd⟩ := s.dispatch_eq next
  have hpreempt : s.preempt.nextPid = s.nextPid ∧ s.preempt.console = s.console ∧
      s.preempt.heap.totalBytesAllocated = s.heap.totalBytesAllocated ∧
      s.preempt.heap.trace = s.heap.trace := by
    unfold preempt
    split <;> exact ⟨rfl, rfl, rfl, rfl⟩
  generalize s.preempt = s1 at hd hpreempt
  rw [hd]
  exact hpreempt

/-- CR3 is set from the record of the task that gets the CPU. -/
theorem dispatch_cr3 {next : Nat} (hapart : RecordsApart ts) (hcur : s.currentTask ∈ ts)
    (hnext : next ∈ ts) : (s.dispatch next).cr3 =
      if s.get next .pageDirectory ≠ 0 ∧ s.get next .pageDirectory ≠ s.cr3 then
        s.get next .pageDirectory
      else s.cr3 := by
  have hpreempt : s.preempt.cr3 = s.cr3 := by
    unfold preempt
    split <;> rfl
  have hdir : s.preempt.get next .pageDirectory = s.get next .pageDirectory := by
    rw [preempt_get hapart hcur hnext, if_neg (by simp)]
  have hs : s.dispatch next = loadPageDirectory
      { (s.preempt.setCurrentTask next).set next .state taskRunning with
        tssEsp0 := ((s.preempt.setCurrentTask next).set next .state taskRunning).get next
          .kstackTopPage } := rfl
  rw [hs, ← hdir, ← hpreempt]
  generalize s.preempt = s1
  have hfield : ((s1.setCurrentTask next).set next .state taskRunning).get next .pageDirectory =
      s1.get next .pageDirectory := get_set_field (by decide)
  rw [← hfield]
  unfold loadPageDirectory
  split
  next hnew => exact (if_pos hnew).symm
  next hold => exact (if_neg hold).symm

theorem dispatch_effect {esp next : Nat} (hapart : RecordsApart ts) (hcur : s.currentTask ∈ ts)
    (hnext : next ∈ ts) (hesp : esp < 2 ^ 32) :
    SwitchEffect s ((s.set s.currentTask .kstack esp).dispatch next) ts esp next := by
  have hsaved : ∀ u, u ∈ ts → ∀ g, (s.set s.currentTask .kstack esp).get u g =
      if u = s.currentTask ∧ g = .kstack then esp else s.get u g :=
    fun u hu g => get_set hapart hcur hu hesp
  have hcurrent : (s.set s.currentTask .kstack esp).currentTask = s.currentTask := rfl
  have hqueue : (s.set s.currentTask .kstack esp).taskQueue = s.taskQueue := rfl
  have hactive : (s.set s.currentTask .kstack esp).schedulerActive = s.schedulerActive := rfl
  have hhead : (s.set s.currentTask .kstack esp).heap.heapHead = s.heap.heapHead := rfl
  have hmem : ∀ x, OutsideRecords ts x →
      (s.set s.currentTask .kstack esp).heap.mem x = s.heap.mem x :=
    fun x hx => set_outside (hx _ hcur)
  -- from here on only these facts about the first store are used
  generalize s.set s.currentTask .kstack esp = s0 at *
  rw [← hcurrent] at hcur
  obtain ⟨hcurrent', hqueue', hactive', hhead', hesp0⟩ := s0.dispatch_vars next
  have hget : ∀ u, u ∈ ts → ∀ g, (s0.dispatch next).get u g =
      if u = next ∧ g = .state then taskRunning
      else if u = s.currentTask ∧ g = .state ∧ s.get u .state = taskRunning then taskReady
      else if u = s.currentTask ∧ g = .kstack then esp else s.get u g := by
    intro u hu g
    rw [dispatch_get hapart hnext hu, preempt_get hapart hcur hu, hsaved u hu, hsaved u hu,
      hcurrent]
    simp
  refine ⟨hcurrent', hqueue'.trans hqueue, hactive'.trans hactive, hhead'.trans hhead, hesp0,
    ?_, ?_, ?_, ?_⟩
  · intro u hu
    rw [hget u hu]
    simp
  · intro u hu
    rw [hget u hu]
    simp
  · intro u hu g hk hst
    rw [hget u hu]
    simp [hk, hst]
  · intro x hx
    exact (dispatch_mem hcur hnext hx).trans (hmem x hx)

theorem runnable_congr (h : s'.get t .state = s.get t .state) : s'.runnable t = s.runnable t := by
  rw [runnable, runnable, h]

/-- The task that a switch chooses in the ring `pre ++ currentTask :: post`. -/
def chosen (s : Sched) (pre post : List Nat) : Nat :=
  ((post ++ pre).find? s.runnable).getD s.currentTask

theorem chosen_mem (s : Sched) (pre post : List Nat) :
    s.chosen pre post ∈ pre ++ s.currentTask :: post := by
  unfold chosen
  cases hfind : (post ++ pre).find? s.runnable with
  | none => simp
  | some t =>
    have := List.mem_of_find?_eq_some hfind
    simp only [Option.getD_some, List.mem_append, List.mem_cons] at this ⊢
    rcases this with h | h
    · exact Or.inr (Or.inr h)
    · exact Or.inl h

/-- When some task is runnable, the task chosen is. -/
theorem chosen_runnable {pre post : List Nat} (ht : t ∈ pre ++ s.currentTask :: post)
    (hrun : s.runnable t = true) : s.runnable (s.chosen pre post) = true := by
  unfold chosen
  cases hfind : (post ++ pre).find? s.runnable with
  | some u => exact List.find?_some hfind
  | none =>
    -- then only the current task can be the runnable one
    have hnone := List.find?_eq_none.mp hfind
    have htcur : t = s.currentTask := by
      by_contra hne
      refine hnone t ?_ hrun
      simp only [List.mem_append, List.mem_cons, hne, false_or] at ht ⊢
      exact ht.symm
    rw [Option.getD_none, ← htcur]
    exact hrun

/-- The state that a switch to `next` makes. -/
@[irreducible] def switchTo (s : Sched) (esp next : Nat) : Sched :=
  (s.set s.currentTask .kstack esp).dispatch next

theorem switchTo_effect {esp next : Nat} (hapart : RecordsApart ts) (hcur : s.currentTask ∈ ts)
    (hnext : next ∈ ts) (hesp : esp < 2 ^ 32) :
    SwitchEffect s (s.switchTo esp next) ts esp next := by
  rw [switchTo]
  exact dispatch_effect hapart hcur hnext hesp

/-- `task_switch` when its search ends. -/
theorem taskSwitch_of_search {esp next : Nat} (hactive : s.schedulerActive = true)
    (hpos : s.currentTask ≠ 0)
    (hsearch : (s.set s.currentTask .kstack esp).searchLoop (2 ^ 32)
      ((s.set s.currentTask .kstack esp).get s.currentTask .next) = some next) :
    s.taskSwitch esp = some (s.switchTo esp next, (s.switchTo esp next).get next .kstack) := by
  have hstarted : ¬ (s.schedulerActive = false ∨ s.currentTask = 0) := by
    rw [hactive]
    exact fun h => h.elim (by decide) hpos
  have hset : (s.set s.currentTask .kstack esp).currentTask = s.currentTask := rfl
  have hcurrent := ((s.set s.currentTask .kstack esp).dispatch_vars next).1
  rw [taskSwitch, if_neg hstarted]
  simp only [hset, hsearch, Option.bind_eq_bind, Option.bind_some, hcurrent, switchTo]

/-- `task_switch` returns, and gives the CPU to the task chosen. -/
theorem taskSwitch_effect {pre post : List Nat} {esp : Nat}
    (hapart : RecordsApart (pre ++ s.currentTask :: post))
    (hnodup : (pre ++ s.currentTask :: post).Nodup)
    (hlinks : Links (fun t => s.get t .next) (s.currentTask :: (post ++ pre)) s.currentTask)
    (hactive : s.schedulerActive = true) (hpos : s.currentTask ≠ 0)
    (hlen : (pre ++ s.currentTask :: post).length ≤ 2 ^ 32) (hesp : esp < 2 ^ 32) :
    s.taskSwitch esp = some (s.switchTo esp (s.chosen pre post),
        (s.switchTo esp (s.chosen pre post)).get (s.chosen pre post) .kstack) ∧
      SwitchEffect s (s.switchTo esp (s.chosen pre post)) (pre ++ s.currentTask :: post) esp
        (s.chosen pre post) := by
  have hcur : s.currentTask ∈ pre ++ s.currentTask :: post := by simp
  have hrest : ∀ u, u ∈ s.currentTask :: (post ++ pre) → u ∈ pre ++ s.currentTask :: post := by
    intro u hu
    simp only [List.mem_append, List.mem_cons] at hu ⊢
    rcases hu with h | h | h
    · exact Or.inr (Or.inl h)
    · exact Or.inr (Or.inr h)
    · exact Or.inl h
  -- saving the stack pointer changes neither the links nor the states
  have hkeep : ∀ u, u ∈ pre ++ s.currentTask :: post → ∀ g, g ≠ .kstack →
      (s.set s.currentTask .kstack esp).get u g = s.get u g := by
    intro u hu g hg
    rw [get_set hapart hcur hu hesp, if_neg fun h => hg h.2]
  have hfind : (post ++ pre).find? (s.set s.currentTask .kstack esp).runnable =
      (post ++ pre).find? s.runnable :=
    List.find?_congr fun u hu =>
      runnable_congr (hkeep u (hrest u (List.mem_cons_of_mem _ hu)) .state (by decide))
  have hlinks' : Links (fun t => (s.set s.currentTask .kstack esp).get t .next)
      (s.currentTask :: (post ++ pre)) s.currentTask :=
    hlinks.congr fun u hu => hkeep u (hrest u hu) .next (by decide)
  have hnotin : s.currentTask ∉ post ++ pre :=
    (List.nodup_cons.mp (List.nodup_middle.mp hnodup)).1 ∘ fun h => by
      rw [List.mem_append] at h ⊢
      exact h.symm
  have hroom : (post ++ pre).length < 2 ^ 32 := by
    simp only [List.length_append, List.length_cons] at hlen ⊢
    omega
  have hsearch : (s.set s.currentTask .kstack esp).searchLoop (2 ^ 32)
      ((s.set s.currentTask .kstack esp).get s.currentTask .next) = some (s.chosen pre post) := by
    rw [chosen, ← hfind]
    exact searchLoop_ring hlinks' hnotin hroom
  exact ⟨taskSwitch_of_search hactive hpos hsearch,
    switchTo_effect hapart hcur (chosen_mem s pre post) hesp⟩

end Sched

end Newrex
