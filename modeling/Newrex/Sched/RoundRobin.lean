import Newrex.Sched.Runs

/-!
# Round robin

`task_switch` gives the CPU to the first task behind the current one that is READY or RUNNING.
`RingProperty` is what the scheduler needs for that, whatever run it comes from:

* `RingProperty.switch`: one call of `task_switch`; the tasks that can run stay the same ones, and
  the one that gets the CPU goes from the first to the last place (`Ring.turns_next`);
* `SwitchRun.turns`: a run of calls, with any other code in between;
* `round_robin_fair` is the result for as many calls as tasks can run.
-/

namespace Newrex

open Ring

namespace Sched

/-- The tasks form a ring: the `next` pointers from `task_queue` visit each once and come back,
the current task is one of them, and the only one that is RUNNING. -/
structure RingProperty (s : Sched) (tasks : List Nat) : Prop where
  active : s.schedulerActive = true
  cycle : IsCycle (fun t => s.get t .next) s.taskQueue tasks
  current : s.currentTask ∈ tasks
  running : ∀ t, t ∈ tasks → (s.get t .state = taskRunning ↔ t = s.currentTask)
  records : RecordsApart tasks
  range : ∀ t, t ∈ tasks → 0 < t ∧ t < 2 ^ 32

/-- What other code leaves alone: the variables of the ring and the task records. -/
structure Undisturbed (tasks : List Nat) (s s' : Sched) : Prop where
  active : s'.schedulerActive = s.schedulerActive
  queue : s'.taskQueue = s.taskQueue
  current : s'.currentTask = s.currentTask
  record : ∀ t, t ∈ tasks → ∀ f, s'.get t f = s.get t f

/-- Calls of `task_switch`, with other code in front of each, and the tasks that became current,
oldest first. No task is created or exits. -/
inductive SwitchRun (tasks : List Nat) : Sched → List Nat → Sched → Prop
  | nil (s : Sched) : SwitchRun tasks s [] s
  | switch {s s1 s2 s' : Sched} {esp : UInt32} {ret : Nat} {visited : List Nat} :
      Undisturbed tasks s s1 → s1.taskSwitch esp.toNat = some (s2, ret) →
      SwitchRun tasks s2 visited s' → SwitchRun tasks s (s2.currentTask :: visited) s'

variable {s s' : Sched} {tasks visited : List Nat} {t : Nat}

namespace RingProperty

theorem runnable_current (h : s.RingProperty tasks) : s.runnable s.currentTask = true := by
  rw [runnable, (h.running _ h.current).mpr rfl]
  rfl

theorem length_le (h : s.RingProperty tasks) : tasks.length ≤ 2 ^ 32 := by
  have hsub : tasks ⊆ List.range (2 ^ 32) := fun t ht => List.mem_range.mpr (h.range t ht).2
  have hle := (h.cycle.nodup.subperm hsub).length_le
  rwa [List.length_range] at hle

/-- Other code keeps the ring. -/
theorem undisturbed (h : s.RingProperty tasks) (hs : Undisturbed tasks s s') :
    s'.RingProperty tasks where
  active := hs.active.trans h.active
  cycle := by
    rw [hs.queue]
    exact h.cycle.congr fun t ht => hs.record t ht .next
  current := by
    rw [hs.current]
    exact h.current
  running := by
    intro t ht
    rw [hs.record t ht, hs.current]
    exact h.running t ht
  records := h.records
  range := h.range

/-- Giving the CPU to a task that can run keeps the ring, and the tasks that can run. -/
theorem of_switchEffect (h : s.RingProperty tasks) {esp next : Nat}
    (heff : SwitchEffect s s' tasks esp next) (hnext : next ∈ tasks)
    (hrun : s.runnable next = true) :
    s'.RingProperty tasks ∧ ∀ t, t ∈ tasks → s'.runnable t = s.runnable t := by
  refine ⟨⟨heff.active.trans h.active, ?_, ?_, fun t ht => ?_, h.records, h.range⟩,
    fun t ht => ?_⟩
  · rw [heff.queue]
    exact h.cycle.congr fun t ht => heff.field t ht .next (by decide) (by decide)
  · rw [heff.current]
    exact hnext
  · -- the old current task has left the state RUNNING
    rw [heff.state t ht, heff.current]
    split
    case isTrue hnew => exact ⟨fun _ => hnew, fun _ => rfl⟩
    case isFalse hother =>
      refine ⟨fun hstate => ?_, fun hnew => absurd hnew hother⟩
      split at hstate
      case isTrue => exact absurd hstate (by decide)
      case isFalse hold => exact absurd ⟨(h.running t ht).mp hstate, hstate⟩ hold
  · rw [runnable, heff.state t ht]
    split
    case isTrue hnew =>
      rw [hnew, hrun]
      rfl
    case isFalse =>
      split
      case isTrue hold =>
        rw [hold.1, h.runnable_current]
        rfl
      case isFalse => rfl

/-- One call: it returns, and enters the ring at the first task that can run behind the current
one. -/
theorem switch (h : s.RingProperty tasks) (esp : UInt32) :
    ∃ s' ret rest, s.taskSwitch esp.toNat = some (s', ret) ∧ s'.RingProperty tasks ∧
      turns s.runnable tasks s.currentTask = s'.currentTask :: rest ∧
      turns s'.runnable tasks s'.currentTask = rest ++ [s'.currentTask] := by
  obtain ⟨pre, post, hsplit⟩ := List.append_of_mem h.current
  have hnodup := h.cycle.nodup
  have hapart := h.records
  have hlen := h.length_le
  have hlinks := h.cycle.links
  rw [← h.cycle.head (List.ne_nil_of_mem h.current) s.currentTask] at hlinks
  rw [hsplit] at hnodup hapart hlen hlinks
  obtain ⟨heq, heff⟩ := taskSwitch_effect hapart hnodup hlinks.rotate h.active
    (Nat.ne_of_gt (h.range _ h.current).1) hlen esp.toNat_lt
  have hrun : s.runnable (s.chosen pre post) = true :=
    chosen_runnable (hsplit ▸ h.current) h.runnable_current
  have hnext := chosen_mem s pre post
  rw [← hsplit] at heff hnext
  obtain ⟨hring, hsame⟩ := h.of_switchEffect heff hnext hrun
  obtain ⟨rest, hturns, hafter⟩ := turns_next hnodup h.runnable_current
  rw [← hsplit] at hturns hafter
  refine ⟨_, _, rest, heq, hring, ?_, ?_⟩
  · rw [heff.current]
    exact hturns
  · rw [turns_congr hsame, heff.current]
    exact hafter

end RingProperty

/-! ## Runs of switches -/

theorem SwitchRun.ring (hrun : SwitchRun tasks s visited s') (h : s.RingProperty tasks) :
    s'.RingProperty tasks := by
  induction hrun with
  | nil s => exact h
  | switch hother heq _ ih =>
    obtain ⟨s2, ret, _, heq', hring, _⟩ := (h.undisturbed hother).switch _
    obtain ⟨rfl, _⟩ := Prod.mk.inj (Option.some.inj (heq'.symm.trans heq))
    exact ih hring

theorem SwitchRun.current (hrun : SwitchRun tasks s visited s') :
    s'.currentTask = visited.getLastD s.currentTask := by
  induction hrun with
  | nil s => rfl
  | switch _ _ _ ih => rw [ih, List.getLastD_cons]

/-- The tasks become current in ring order, as long as each has had one turn at most. The
induction is on the run. -/
theorem SwitchRun.turns (hrun : SwitchRun tasks s visited s') (h : s.RingProperty tasks)
    (hlen : visited.length ≤ (turns s.runnable tasks s.currentTask).length) :
    visited = (turns s.runnable tasks s.currentTask).take visited.length := by
  induction hrun with
  | nil s => rfl
  | @switch s s1 s2 s' esp ret visited hother heq _ ih =>
    have h1 := h.undisturbed hother
    have hsame : Ring.turns s1.runnable tasks s1.currentTask =
        Ring.turns s.runnable tasks s.currentTask := by
      rw [hother.current]
      exact turns_congr fun t ht => runnable_congr (hother.record t ht .state)
    obtain ⟨_, _, rest, heq', hring, hturns, hafter⟩ := h1.switch esp
    obtain ⟨rfl, _⟩ := Prod.mk.inj (Option.some.inj (heq'.symm.trans heq))
    rw [← hsame, hturns] at hlen ⊢
    have hroom : visited.length ≤ rest.length := Nat.le_of_succ_le_succ hlen
    have hvisited := ih hring (by
      rw [hafter, List.length_append]
      exact Nat.le_add_right_of_le hroom)
    rw [hafter, List.take_append_of_le_length hroom] at hvisited
    rw [List.length_cons, List.take_succ_cons]
    exact congrArg _ hvisited

end Sched

/-- The states of all runs have the property. -/
theorem reachable_ringProperty {kernelHeap : KernelHeap} {s : SchedState}
    (h : (schedRuns kernelHeap).Reachable s) : s.sched.RingProperty s.tasks := by
  obtain ⟨hinv, hrun⟩ := reachable_ringInv h
  refine ⟨hinv.active, ?_, hinv.current, fun t ht => ⟨hinv.only t ht, ?_⟩, hinv.apart,
    fun t ht => ?_⟩
  · rw [hinv.queue]
    exact hinv.links.cycle hinv.nodup
  · rintro rfl
    exact hrun
  · have hrange := hinv.range ht
    exact ⟨hrange.1, Nat.lt_of_le_of_lt (Nat.le_add_right _ _) hrange.2⟩

/-- Round robin is fair. From every state with the ring property, with any code in between that
leaves the ring and the task records alone, `task_switch` always returns; and as many calls as
there are tasks that are READY or RUNNING
* make these tasks current in ring order behind the current one,
* each of them exactly once, and no other task,
* and end with the task that was current. -/
theorem round_robin_fair {s : Sched} {tasks : List Nat} (h : s.RingProperty tasks) :
    (∀ visited s', Sched.SwitchRun tasks s visited s' → ∀ s1, Sched.Undisturbed tasks s' s1 →
      ∀ esp : UInt32, ∃ r, s1.taskSwitch esp.toNat = some r) ∧
    ∀ visited s', Sched.SwitchRun tasks s visited s' →
      visited.length = (tasks.filter s.runnable).length →
      visited = turns s.runnable tasks s.currentTask ∧ visited.Nodup ∧
        (∀ t, t ∈ visited ↔ t ∈ tasks ∧ s.runnable t = true) ∧
        s'.currentTask = s.currentTask := by
  constructor
  · intro visited s' hrun s1 hother esp
    obtain ⟨_, _, _, heq, _⟩ := ((hrun.ring h).undisturbed hother).switch esp
    exact ⟨_, heq⟩
  · intro visited s' hrun hlen
    have hperm := turns_perm s.runnable tasks s.currentTask
    rw [← hperm.length_eq] at hlen
    have hvisited := hrun.turns h (Nat.le_of_eq hlen)
    rw [hlen, List.take_length] at hvisited
    obtain ⟨rest, hlast⟩ := turns_last h.cycle.nodup h.current h.runnable_current
    refine ⟨hvisited, ?_, fun t => ?_, ?_⟩
    · rw [hvisited]
      exact hperm.nodup_iff.mpr (h.cycle.nodup.filter _)
    · rw [hvisited, hperm.mem_iff, List.mem_filter]
    · rw [hrun.current, hvisited, hlast, List.getLastD_concat]

/-- Two tasks take turns: the user task of `sampleRunning` is current, PID 0 comes first. -/
theorem round_robin_sample : sampleRunning.sched.currentTask = 0x100034 ∧
    ∀ visited s', Sched.SwitchRun sampleRunning.tasks sampleRunning.sched visited s' →
      visited.length = 2 → visited = [0x10000C, 0x100034] ∧
        s'.currentTask = sampleRunning.sched.currentTask := by
  obtain ⟨_, hfair⟩ := round_robin_fair (reachable_ringProperty sampleRunning_reachable)
  have hcount : (sampleRunning.tasks.filter sampleRunning.sched.runnable).length = 2 := by
    decide +kernel
  have hturns : turns sampleRunning.sched.runnable sampleRunning.tasks
      sampleRunning.sched.currentTask = [0x10000C, 0x100034] := by
    decide +kernel
  refine ⟨by decide +kernel, fun visited s' hrun hlen => ?_⟩
  obtain ⟨hvisited, _, _, hcurrent⟩ := hfair visited s' hrun (hlen.trans hcount.symm)
  exact ⟨hvisited.trans hturns, hcurrent⟩

end Newrex
