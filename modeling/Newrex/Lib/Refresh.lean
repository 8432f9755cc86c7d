import Mathlib.Data.List.TakeDrop

/-!
# A loop that redraws a picture

The loop draws a picture of some data in several stages when a flag is set, clears the flag, and
sleeps until the next interrupt. Interrupts come between any two steps of the loop, also in the
middle of a drawing. They change the data and may set the flag, and they wake the loop when it
sleeps; a handler that does not return stops the loop for good. The flag is cleared after the
drawing, so that a change in between is forgotten, and it is tested in front of the instruction
that sleeps, so that a flag set in between waits for the next interrupt.

* `System.countdown`: properties that the steps of the loop bring nearer, and that interrupts keep;
* `System.forgotten`: a change that concerns what has been drawn already is not seen;
* `System.shown_run`: when nothing changes the picture any more, the next interrupt that sets the
  flag, after a full round of the loop, has the picture drawn, whatever the interleaving is.
-/

namespace Refresh

/-- Where the loop is: in front of its test, in front of stage `k` of the drawing or behind the
last one, in front of the instruction that halts, halted, and under a handler that does not
return. -/
inductive Pc
  | test
  | draw (k : Nat)
  | halting
  | halted
  | stopped
deriving DecidableEq

structure State (σ κ : Type) where
  data : σ
  canvas : κ
  ready : Bool
  pc : Pc

/-- The stages of a drawing, and what an interrupt does to the data and to the flag; `none` when
its handler does not return. -/
structure System (σ κ ι : Type) where
  stages : List (σ → κ → κ)
  handle : ι → σ → Option (σ × Bool)

inductive Event (ι : Type)
  | loop
  | interrupt (i : ι)

variable {σ κ ι ν : Type}

namespace System

variable (M : System σ κ ι)

def step (s : State σ κ) : Event ι → State σ κ
  | .loop =>
    match s.pc with
    | .test => { s with pc := if s.ready then .draw 0 else .halting }
    | .draw k =>
      match M.stages[k]? with
      | some stage => { s with canvas := stage s.data s.canvas, pc := .draw (k + 1) }
      | none => { s with ready := false, pc := .halting }
    | .halting => { s with pc := .halted }
    | .halted => s
    | .stopped => s
  | .interrupt i =>
    if s.pc = .stopped then s
    else
      match M.handle i s.data with
      | none => { s with pc := .stopped }
      | some (d, flag) =>
        { s with
          data := d
          ready := s.ready || flag
          pc := if s.pc = .halted then .test else s.pc }

def run (s : State σ κ) (es : List (Event ι)) : State σ κ := es.foldl M.step s

/-- The first `k` stages. -/
def first (k : Nat) (d : σ) (c : κ) : κ := (M.stages.take k).foldl (fun c stage => stage d c) c

/-- A whole drawing. -/
def draw (d : σ) (c : κ) : κ := M.stages.foldl (fun c stage => stage d c) c

/-- Only the last stage changes what is seen, and what is seen does not depend on the canvas
before. -/
structure Regular (view : κ → ν) : Prop where
  inner : ∀ k stage, M.stages[k]? = some stage → k + 1 < M.stages.length →
    ∀ d c, view (stage d c) = view c
  picture : ∀ d c c', view (M.draw d c) = view (M.draw d c')

/-- The interrupt does not change what is drawn. -/
def Quiet (i : ι) : Prop :=
  ∀ d d' flag, M.handle i d = some (d', flag) →
    ∀ stage, stage ∈ M.stages → ∀ c, stage d' c = stage d c

/-- What is seen is the picture of the data. -/
def Shown (view : κ → ν) (s : State σ κ) : Prop := ∀ c, view s.canvas = view (M.draw s.data c)

end System

/-- The steps of the loop among the events. -/
def loops (es : List (Event ι)) : Nat :=
  es.countP fun e => match e with
    | .loop => true
    | .interrupt _ => false

namespace System

variable {M : System σ κ ι} {s : State σ κ} {e : Event ι} {es : List (Event ι)}

theorem run_append (s : State σ κ) (xs ys : List (Event ι)) :
    M.run s (xs ++ ys) = M.run (M.run s xs) ys := List.foldl_append

theorem run_cons (s : State σ κ) (e : Event ι) (es : List (Event ι)) :
    M.run s (e :: es) = M.run (M.step s e) es := List.foldl_cons ..

theorem first_succ {k : Nat} {stage : σ → κ → κ} (h : M.stages[k]? = some stage) (d : σ) (c : κ) :
    M.first (k + 1) d c = stage d (M.first k d c) := by
  rw [first, List.take_add_one, h, List.foldl_append]
  rfl

theorem first_of_le {k : Nat} (h : M.stages.length ≤ k) (d : σ) (c : κ) :
    M.first k d c = M.draw d c := by
  rw [first, List.take_of_length_le h, draw]

theorem foldl_same {d d' : σ} {stages : List (σ → κ → κ)}
    (h : ∀ stage, stage ∈ stages → ∀ c, stage d' c = stage d c) (c : κ) :
    stages.foldl (fun c stage => stage d' c) c = stages.foldl (fun c stage => stage d c) c := by
  induction stages generalizing c with
  | nil => rfl
  | cons stage stages ih =>
    rw [List.foldl_cons, List.foldl_cons, h stage List.mem_cons_self]
    exact ih (fun st hst => h st (List.mem_cons_of_mem _ hst)) _

theorem draw_quiet {i : ι} (h : M.Quiet i) {d d' : σ} {flag : Bool}
    (hd : M.handle i d = some (d', flag)) (c : κ) : M.draw d' c = M.draw d c :=
  foldl_same (h d d' flag hd) c

theorem first_quiet {i : ι} (h : M.Quiet i) {d d' : σ} {flag : Bool}
    (hd : M.handle i d = some (d', flag)) (k : Nat) (c : κ) : M.first k d' c = M.first k d c :=
  foldl_same (fun stage hstage => h d d' flag hd stage (List.mem_of_mem_take hstage)) c

/-! ## Steps -/

variable {k : Nat} {stage : σ → κ → κ}

theorem step_test (hpc : s.pc = .test) :
    M.step s .loop = { s with pc := if s.ready then .draw 0 else .halting } := by
  rw [step, hpc]

theorem step_draw (hpc : s.pc = .draw k) (h : M.stages[k]? = some stage) :
    M.step s .loop = { s with canvas := stage s.data s.canvas, pc := .draw (k + 1) } := by
  rw [step, hpc]
  dsimp only
  rw [h]

theorem step_drawn (hpc : s.pc = .draw k) (h : M.stages[k]? = none) :
    M.step s .loop = { s with ready := false, pc := .halting } := by
  rw [step, hpc]
  dsimp only
  rw [h]

theorem step_halting (hpc : s.pc = .halting) : M.step s .loop = { s with pc := .halted } := by
  rw [step, hpc]

theorem step_halted (hpc : s.pc = .halted) : M.step s .loop = s := by
  rw [step, hpc]

theorem step_stopped (hpc : s.pc = .stopped) (e : Event ι) : M.step s e = s := by
  cases e with
  | loop => rw [step, hpc]
  | interrupt i => rw [step, if_pos hpc]

theorem run_stopped (hpc : s.pc = .stopped) (es : List (Event ι)) : M.run s es = s := by
  induction es with
  | nil => rfl
  | cons e es ih =>
    rw [run, List.foldl_cons, step_stopped hpc]
    exact ih

/-- The loop only reads the data. -/
theorem step_loop_data (s : State σ κ) : (M.step s .loop).data = s.data := by
  rw [step]
  split
  · rfl
  · split <;> rfl
  · rfl
  · rfl
  · rfl

variable {i : ι} {d : σ} {flag : Bool}

/-- Away from the halt, an interrupt leaves the loop where it is. -/
theorem step_interrupt (h : M.handle i s.data = some (d, flag)) (hpc : s.pc ≠ .halted)
    (hruns : s.pc ≠ .stopped) :
    M.step s (.interrupt i) = { s with data := d, ready := s.ready || flag } := by
  rw [step, if_neg hruns, h]
  dsimp only
  rw [if_neg hpc]

theorem step_interrupt_halted (h : M.handle i s.data = some (d, flag)) (hpc : s.pc = .halted) :
    M.step s (.interrupt i) = { s with data := d, ready := s.ready || flag, pc := .test } := by
  rw [step, if_neg (by rw [hpc]; exact nofun), h]
  dsimp only
  rw [if_pos hpc]

/-- A loop that is not stopped has not been, and the handlers have returned. -/
theorem running (h : (M.run s (e :: es)).pc ≠ .stopped) :
    s.pc ≠ .stopped ∧ (M.step s e).pc ≠ .stopped ∧
      ∀ i, e = .interrupt i → ∃ d flag, M.handle i s.data = some (d, flag) := by
  have hs : s.pc ≠ .stopped := fun hpc => by rw [run_stopped hpc] at h; exact h hpc
  have hstep : (M.step s e).pc ≠ .stopped := by
    intro hpc
    rw [run, List.foldl_cons] at h
    rw [← run, run_stopped hpc] at h
    exact h hpc
  refine ⟨hs, hstep, ?_⟩
  rintro i rfl
  cases hd : M.handle i s.data with
  | some r => exact ⟨r.1, r.2, rfl⟩
  | none =>
    rw [step, if_neg hs, hd] at hstep
    exact absurd rfl hstep

/-- The loop does not stop by itself. -/
theorem run_loops_running (h : s.pc ≠ .stopped) (n : Nat) :
    (M.run s (List.replicate n .loop)).pc ≠ .stopped := by
  induction n generalizing s with
  | zero => exact h
  | succ n ih =>
    refine ih (s := M.step s .loop) ?_
    cases hpc : s.pc with
    | test => rw [step_test hpc]; cases s.ready <;> exact nofun
    | draw k =>
      cases hstage : M.stages[k]? with
      | some stage => rw [step_draw hpc hstage]; exact nofun
      | none => rw [step_drawn hpc hstage]; exact nofun
    | halting => rw [step_halting hpc]; exact nofun
    | halted => rw [step_halted hpc, hpc]; exact nofun
    | stopped => exact absurd hpc h

/-- A property that each step of the loop brings nearer and that no interrupt moves away. -/
theorem countdown {P : Nat → State σ κ → Prop}
    (hloop : ∀ j s, P (j + 1) s → P j (M.step s .loop))
    (hinterrupt : ∀ j s i d flag, M.Quiet i → s.pc ≠ .stopped →
      M.handle i s.data = some (d, flag) → P j s → P j (M.step s (.interrupt i)))
    {es : List (Event ι)} (hes : ∀ i, Event.interrupt i ∈ es → M.Quiet i) {s : State σ κ}
    (hruns : (M.run s es).pc ≠ .stopped) (h : P (loops es) s) : P 0 (M.run s es) := by
  induction es generalizing s with
  | nil => exact h
  | cons e es ih =>
    have hrest (t : State σ κ) := ih (fun i hi => hes i (List.mem_cons_of_mem _ hi)) (s := t)
    obtain ⟨hs, -, hreturns⟩ := running hruns
    cases e with
    | loop =>
      have hcount : loops (Event.loop :: es) = loops es + 1 := List.countP_cons_of_pos rfl
      rw [hcount] at h
      exact hrest _ hruns (hloop _ _ h)
    | interrupt i =>
      have hcount : loops (Event.interrupt i :: es) = loops es :=
        List.countP_cons_of_neg Bool.false_ne_true
      rw [hcount] at h
      obtain ⟨d, flag, hd⟩ := hreturns i rfl
      exact hrest _ hruns (hinterrupt _ _ i d flag (hes i List.mem_cons_self) hs hd h)

/-! ## The picture -/

section View

variable {view : κ → ν}

/-- The drawing that the loop is in the middle of is a drawing of the data. -/
def Fresh (M : System σ κ ι) (s : State σ κ) : Prop :=
  ∀ k, s.pc = .draw k → ∃ c, s.canvas = M.first k s.data c

/-- The picture is shown after `j` steps of the loop at the latest. -/
structure Due (M : System σ κ ι) (view : κ → ν) (j : Nat) (s : State σ κ) : Prop where
  fresh : M.Fresh s
  near : M.Shown view s ∨ (s.pc = .test ∧ s.ready = true ∧ M.stages.length + 1 ≤ j) ∨
    ∃ k, s.pc = .draw k ∧ k < M.stages.length ∧ M.stages.length - k ≤ j

theorem Due.shown {s : State σ κ} (h : M.Due view 0 s) : M.Shown view s := by
  rcases h.near with hshown | ⟨-, -, hj⟩ | ⟨k, -, hk, hj⟩
  · exact hshown
  · cases hj
  · exact absurd (Nat.sub_eq_zero_iff_le.mp (Nat.le_zero.mp hj)) (Nat.not_le_of_gt hk)

/-- Asleep, or on the way there. -/
theorem Due.shown_of_idle {j : Nat} {s : State σ κ} (h : M.Due view j s) (htest : s.pc ≠ .test)
    (hdraw : ∀ k, s.pc ≠ .draw k) : M.Shown view s := by
  rcases h.near with hshown | ⟨hpc, -⟩ | ⟨k, hpc, -⟩
  · exact hshown
  · exact absurd hpc htest
  · exact absurd hpc (hdraw k)

theorem Due.mono {i j : Nat} (h : M.Due view i s) (hij : i ≤ j) : M.Due view j s := by
  refine ⟨h.fresh, h.near.imp id (Or.imp ?_ ?_)⟩
  · exact fun ht => ⟨ht.1, ht.2.1, Nat.le_trans ht.2.2 hij⟩
  · exact fun ⟨k, hpc, hk, hj⟩ => ⟨k, hpc, hk, Nat.le_trans hj hij⟩

/-- All stages of a fresh drawing. -/
theorem shown_of_fresh (hM : M.Regular view) (h : M.Fresh s) (hpc : s.pc = .draw k)
    (hk : M.stages.length ≤ k) : M.Shown view s := by
  obtain ⟨c, hc⟩ := h k hpc
  intro c'
  rw [hc, first_of_le hk]
  exact hM.picture s.data c c'

theorem due_of_draw (hM : M.Regular view) (h : M.Fresh s) (hpc : s.pc = .draw k) {j : Nat}
    (hj : M.stages.length - k ≤ j) : M.Due view j s := by
  rcases Nat.lt_or_ge k M.stages.length with hk | hk
  · exact ⟨h, .inr (.inr ⟨k, hpc, hk, hj⟩)⟩
  · exact ⟨h, .inl (shown_of_fresh hM h hpc hk)⟩

theorem Due.loop (hM : M.Regular view) {j : Nat} (h : M.Due view (j + 1) s) :
    M.Due view j (M.step s .loop) := by
  cases hpc : s.pc with
  | test =>
    rw [step_test hpc]
    cases hready : s.ready with
    | true =>
      rw [if_pos rfl]
      have hfresh : M.Fresh { s with ready := true, pc := Pc.draw 0 } := by
        intro k hk
        cases hk
        exact ⟨s.canvas, rfl⟩
      rcases h.near with hshown | ⟨-, -, hj⟩ | ⟨k, hk, -⟩
      · exact ⟨hfresh, .inl hshown⟩
      · exact due_of_draw hM hfresh rfl (by rw [Nat.sub_zero]; exact Nat.le_of_succ_le_succ hj)
      · cases hpc.symm.trans hk
    | false =>
      refine ⟨fun k hk => (by cases hk), ?_⟩
      rcases h.near with hshown | ⟨-, hset, -⟩ | ⟨k, hk, -⟩
      · exact .inl hshown
      · cases hready.symm.trans hset
      · cases hpc.symm.trans hk
  | draw k =>
    cases hstage : M.stages[k]? with
    | some stage =>
      rw [step_draw hpc hstage]
      have hfresh : M.Fresh { s with canvas := stage s.data s.canvas, pc := Pc.draw (k + 1) } := by
        intro k' hk'
        cases hk'
        obtain ⟨c, hc⟩ := h.fresh k hpc
        exact ⟨c, by rw [first_succ hstage, hc]⟩
      rcases h.near with hshown | ⟨htest, -⟩ | ⟨k', hk', -, hj⟩
      · rcases Nat.lt_or_ge (k + 1) M.stages.length with hk | hk
        · exact ⟨hfresh, .inl fun c => (hM.inner k stage hstage hk _ _).trans (hshown c)⟩
        · exact ⟨hfresh, .inl (shown_of_fresh hM hfresh rfl hk)⟩
      · cases hpc.symm.trans htest
      · cases hpc.symm.trans hk'
        exact due_of_draw hM hfresh rfl (by omega)
    | none =>
      rw [step_drawn hpc hstage]
      have hk : M.stages.length ≤ k := List.getElem?_eq_none_iff.mp hstage
      have hshown : M.Shown view s := shown_of_fresh hM h.fresh hpc hk
      exact ⟨fun k' hk' => (by cases hk'), .inl hshown⟩
  | halting =>
    have hshown : M.Shown view s :=
      h.shown_of_idle (by rw [hpc]; exact nofun) (by rw [hpc]; exact nofun)
    rw [step_halting hpc]
    exact ⟨fun k hk => (by cases hk), .inl hshown⟩
  | halted =>
    have hshown : M.Shown view s :=
      h.shown_of_idle (by rw [hpc]; exact nofun) (by rw [hpc]; exact nofun)
    rw [step_halted hpc]
    exact ⟨h.fresh, .inl hshown⟩
  | stopped =>
    have hshown : M.Shown view s :=
      h.shown_of_idle (by rw [hpc]; exact nofun) (by rw [hpc]; exact nofun)
    rw [step_stopped hpc]
    exact ⟨h.fresh, .inl hshown⟩

theorem Due.interrupt (hi : M.Quiet i) (hruns : s.pc ≠ .stopped)
    (hd : M.handle i s.data = some (d, flag)) {j : Nat} (h : M.Due view j s) :
    M.Due view j (M.step s (.interrupt i)) := by
  have hshown {t : State σ κ} (hcanvas : t.canvas = s.canvas) (hdata : t.data = d)
      (hs : M.Shown view s) : M.Shown view t := by
    intro c
    rw [hcanvas, hdata, draw_quiet hi hd]
    exact hs c
  by_cases hpc : s.pc = .halted
  · have hs : M.Shown view s :=
      h.shown_of_idle (by rw [hpc]; exact nofun) (by rw [hpc]; exact nofun)
    rw [step_interrupt_halted hd hpc]
    exact ⟨fun k hk => (by cases hk), .inl (hshown rfl rfl hs)⟩
  · rw [step_interrupt hd hpc hruns]
    refine ⟨fun k hk => ?_, ?_⟩
    · obtain ⟨c, hc⟩ := h.fresh k hk
      exact ⟨c, hc.trans (first_quiet hi hd k c).symm⟩
    · rcases h.near with hs | ⟨htest, hready, hj⟩ | hdraw
      · exact .inl (hshown rfl rfl hs)
      · exact .inr (.inl ⟨htest, by rw [hready]; rfl, hj⟩)
      · exact .inr (.inr hdraw)

/-- The flag is set in front of the test. -/
theorem due_of_test (hpc : s.pc = .test) (hready : s.ready = true) :
    M.Due view (M.stages.length + 1) s :=
  ⟨fun k hk => (by cases hpc.symm.trans hk), .inr (.inl ⟨hpc, hready, Nat.le_refl _⟩)⟩

/-- The loop sleeps, or is on the way there, or has a fresh drawing to do, after `j` of its steps
at the latest. -/
def Ripe (M : System σ κ ι) (view : κ → ν) (j : Nat) (s : State σ κ) : Prop :=
  M.Due view (M.stages.length + 1) s ∨ (s.pc = .test ∧ s.ready = false) ∨ s.pc = .halting ∨
    s.pc = .halted ∨ ∃ k, s.pc = .draw k ∧ M.stages.length + 1 - k + 1 ≤ j

theorem ripe_start (hruns : s.pc ≠ .stopped) : M.Ripe view (M.stages.length + 2) s := by
  cases hpc : s.pc with
  | test =>
    cases hready : s.ready with
    | true => exact .inl (due_of_test hpc hready)
    | false => exact .inr (.inl ⟨hpc, hready⟩)
  | draw k =>
    refine .inr (.inr (.inr (.inr ⟨k, hpc, ?_⟩)))
    omega
  | halting => exact .inr (.inr (.inl hpc))
  | halted => exact .inr (.inr (.inr (.inl hpc)))
  | stopped => exact absurd hpc hruns

theorem Ripe.mono {i j : Nat} (h : M.Ripe view i s) (hij : i ≤ j) : M.Ripe view j s := by
  rcases h with hdue | htest | hpc | hpc | ⟨k, hpc, hj⟩
  · exact .inl hdue
  · exact .inr (.inl htest)
  · exact .inr (.inr (.inl hpc))
  · exact .inr (.inr (.inr (.inl hpc)))
  · exact .inr (.inr (.inr (.inr ⟨k, hpc, Nat.le_trans hj hij⟩)))

/-- From a ripe state on, an interrupt that sets the flag makes the picture due, when it does not
come between the test and the halt. -/
theorem Ripe.due (h : M.Ripe view 0 s) (hi : M.Quiet i) (hd : M.handle i s.data = some (d, true))
    (hruns : s.pc ≠ .stopped) (hhalting : s.pc ≠ .halting) :
    M.Due view (M.stages.length + 1) (M.step s (.interrupt i)) := by
  rcases h with hdue | ⟨hpc, -⟩ | hpc | hpc | ⟨k, -, hj⟩
  · exact hdue.interrupt hi hruns hd
  · rw [step_interrupt hd (by rw [hpc]; exact nofun) hruns]
    exact due_of_test hpc (Bool.or_true _)
  · exact absurd hpc hhalting
  · rw [step_interrupt_halted hd hpc]
    exact due_of_test rfl (Bool.or_true _)
  · cases hj

theorem Ripe.loop (hM : M.Regular view) {j : Nat} (h : M.Ripe view (j + 1) s) :
    M.Ripe view j (M.step s .loop) := by
  rcases h with hdue | ⟨hpc, hready⟩ | hpc | hpc | ⟨k, hpc, hj⟩
  · exact .inl ((hdue.mono (Nat.le_succ _)).loop hM)
  · rw [step_test hpc, hready]
    exact .inr (.inr (.inl rfl))
  · rw [step_halting hpc]
    exact .inr (.inr (.inr (.inl rfl)))
  · rw [step_halted hpc]
    exact .inr (.inr (.inr (.inl hpc)))
  · cases hstage : M.stages[k]? with
    | some stage =>
      have hk : k < M.stages.length := (List.getElem?_eq_some_iff.mp hstage).1
      rw [step_draw hpc hstage]
      exact .inr (.inr (.inr (.inr ⟨k + 1, rfl, by omega⟩)))
    | none =>
      rw [step_drawn hpc hstage]
      exact .inr (.inr (.inl rfl))

theorem Ripe.interrupt (hi : M.Quiet i) (hruns : s.pc ≠ .stopped)
    (hd : M.handle i s.data = some (d, flag)) {j : Nat} (h : M.Ripe view j s) :
    M.Ripe view j (M.step s (.interrupt i)) := by
  -- in front of the test the flag decides
  have htest {t : State σ κ} (hpc : t.pc = .test) : M.Ripe view j t := by
    cases hready : t.ready with
    | true => exact .inl (due_of_test hpc hready)
    | false => exact .inr (.inl ⟨hpc, hready⟩)
  rcases h with hdue | ⟨hpc, -⟩ | hpc | hpc | ⟨k, hpc, hj⟩
  · exact .inl (hdue.interrupt hi hruns hd)
  · rw [step_interrupt hd (by rw [hpc]; exact nofun) hruns]
    exact htest hpc
  · rw [step_interrupt hd (by rw [hpc]; exact nofun) hruns]
    exact .inr (.inr (.inl hpc))
  · rw [step_interrupt_halted hd hpc]
    exact htest rfl
  · rw [step_interrupt hd (by rw [hpc]; exact nofun) hruns]
    exact .inr (.inr (.inr (.inr ⟨k, hpc, hj⟩)))

/-- After a full round of the loop, an interrupt that sets the flag and another round, the picture
is shown. The interrupt does not come between the test and the halt, and every handler returns. -/
theorem shown_run (hM : M.Regular view) {xs ys : List (Event ι)}
    (hquiet : ∀ j, Event.interrupt j ∈ xs ++ .interrupt i :: ys → M.Quiet j)
    (hset : M.handle i (M.run s xs).data = some (d, true)) (hpc : (M.run s xs).pc ≠ .halting)
    (hround : M.stages.length + 2 ≤ loops xs) (hdraw : M.stages.length + 1 ≤ loops ys)
    (hruns : (M.run s (xs ++ .interrupt i :: ys)).pc ≠ .stopped) :
    M.Shown view (M.run s (xs ++ .interrupt i :: ys)) := by
  rw [run_append] at hruns ⊢
  obtain ⟨hxs, -, -⟩ := running hruns
  have hs : s.pc ≠ .stopped := fun h => by rw [run_stopped h] at hxs; exact hxs h
  have hi : M.Quiet i := hquiet i (List.mem_append_right _ List.mem_cons_self)
  have hripe : M.Ripe view 0 (M.run s xs) :=
    countdown (P := M.Ripe view) (fun _ _ h => h.loop hM)
      (fun _ _ _ _ _ hi hs hd h => h.interrupt hi hs hd)
      (fun j hj => hquiet j (List.mem_append_left _ hj)) hxs ((ripe_start hs).mono hround)
  have hdue := (hripe.due hi hset hxs hpc).mono hdraw
  have hlast : M.Due view 0 (M.run (M.step (M.run s xs) (.interrupt i)) ys) :=
    countdown (P := M.Due view) (fun _ _ h => h.loop hM)
      (fun _ _ _ _ _ hi hs hd h => h.interrupt hi hs hd)
      (fun j hj => hquiet j (List.mem_append_right _ (List.mem_cons_of_mem _ hj))) hruns hdue
  exact hlast.shown

end View

/-! ## Forgotten changes -/

theorem run_halted (hpc : s.pc = .halted) (n : Nat) :
    M.run s (List.replicate n .loop) = s := by
  induction n with
  | zero => rfl
  | succ n ih =>
    rw [List.replicate_succ, run, List.foldl_cons, step_halted hpc]
    exact ih

/-- The data have changed during a drawing of `d`, but the stages that are left draw the same.
Then the loop finishes the drawing of `d`, clears the flag and sleeps. -/
theorem forgotten {d : σ} {c : κ} (hpc : s.pc = .draw k) (hcanvas : s.canvas = M.first k d c)
    (hrest : ∀ stage, stage ∈ M.stages.drop k → ∀ c, stage s.data c = stage d c) {n : Nat}
    (hn : M.stages.length - k + 2 ≤ n) :
    M.run s (List.replicate n .loop) =
      ⟨s.data, M.draw d c, false, .halted⟩ := by
  induction hleft : M.stages.length - k generalizing s k n with
  | zero =>
    have hk : M.stages.length ≤ k := Nat.le_of_sub_eq_zero hleft
    obtain ⟨m, rfl⟩ := Nat.exists_eq_add_of_le' (Nat.le_trans (Nat.le_add_left 2 _) hn)
    rw [first_of_le hk] at hcanvas
    rw [List.replicate_succ, List.replicate_succ, run, List.foldl_cons, List.foldl_cons,
      step_drawn hpc (List.getElem?_eq_none hk), step_halting rfl, hcanvas]
    exact run_halted rfl m
  | succ left ih =>
    have hk : k < M.stages.length := by omega
    obtain ⟨m, rfl⟩ := Nat.exists_eq_add_of_le' (Nat.le_trans (Nat.le_add_left 1 _) hn)
    have hstage : M.stages[k]? = some (M.stages.get ⟨k, hk⟩) := List.getElem?_eq_getElem hk
    have hmem : M.stages.get ⟨k, hk⟩ ∈ M.stages.drop k := by
      rw [List.drop_eq_getElem_cons hk]
      exact List.mem_cons_self
    rw [List.replicate_succ, run, List.foldl_cons, step_draw hpc hstage]
    refine ih (s := { s with
      canvas := M.stages.get ⟨k, hk⟩ s.data s.canvas, pc := .draw (k + 1) }) (k := k + 1) rfl ?_
      (fun stage hmem' => hrest stage ?_) (by omega) (by omega)
    · rw [first_succ hstage, hcanvas]
      exact hrest _ hmem _
    · rw [List.drop_eq_getElem_cons hk]
      exact List.mem_cons_of_mem _ hmem'

end System

end Refresh
