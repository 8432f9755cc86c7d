import Mathlib.Logic.Basic
import Mathlib.Logic.Function.Iterate

/-!
# Systems that take step after step

A system has initial states, actions that a state may or may not allow, and a
step function. `Reachable` are the states of all its finite runs, and
`Reachable.invariant` is the induction rule for them.

A program whose steps have no defined effect in some states is a system too: `undefine` lets
any state with a given relation follow such a step. In `restrict`, the runs that avoid these
steps, nothing of this is left (`reachable_restrict_undefine`).

A loop is a system with one action. Its runs are the iterates of the step function, and
`stopped_of_variant` is the rule that shows that it ends.
-/

/-- A deterministic labelled transition system. -/
structure TransitionSystem (σ α : Type) where
  init : σ → Prop
  allowed : σ → α → Prop
  step : σ → α → σ

namespace TransitionSystem

variable {σ α : Type} {M : TransitionSystem σ α}

/-- The states at the end of finite runs. -/
inductive Reachable (M : TransitionSystem σ α) : σ → Prop
  | init {s : σ} : M.init s → Reachable M s
  | step {s : σ} {a : α} : Reachable M s → M.allowed s a → Reachable M (M.step s a)

/-- What holds initially and is kept by every allowed step holds in every
reachable state. The step may use that it starts in a reachable state. -/
theorem Reachable.invariant {P : σ → Prop} (h0 : ∀ s, M.init s → P s)
    (hstep : ∀ s a, M.Reachable s → P s → M.allowed s a → P (M.step s a)) {s : σ}
    (h : M.Reachable s) : P s := by
  induction h with
  | init hs => exact h0 _ hs
  | step hr ha ih => exact hstep _ _ hr ih ha

/-- A run from `s`: each action is allowed in the state that the ones in front of it lead to. -/
def IsRun (M : TransitionSystem σ α) (s : σ) (as : List α) : Prop :=
  ∀ pre a, pre ++ [a] <+: as → M.allowed (pre.foldl M.step s) a

theorem isRun_nil {s : σ} : M.IsRun s [] := fun pre a h => by simp at h

theorem isRun_cons {s : σ} {a : α} {as : List α} :
    M.IsRun s (a :: as) ↔ M.allowed s a ∧ M.IsRun (M.step s a) as := by
  constructor
  · exact fun h => ⟨h [] a (List.prefix_append [a] as), fun pre b hpre =>
      h (a :: pre) b (List.cons_prefix_cons.mpr ⟨rfl, hpre⟩)⟩
  · rintro ⟨ha, hrun⟩ pre b hpre
    cases pre with
    | nil =>
      obtain ⟨rfl, -⟩ := List.cons_prefix_cons.mp hpre
      exact ha
    | cons c pre =>
      obtain ⟨rfl, hpre'⟩ := List.cons_prefix_cons.mp hpre
      exact hrun pre b hpre'

theorem Reachable.isRun {s : σ} (h : M.Reachable s) {as : List α} (hrun : M.IsRun s as) :
    M.Reachable (as.foldl M.step s) := by
  induction as generalizing s with
  | nil => exact h
  | cons a as ih =>
    obtain ⟨ha, hrest⟩ := isRun_cons.mp hrun
    exact ih (h.step ha) hrest

/-- A sequence of actions that every state allows. -/
theorem Reachable.run {s : σ} (h : M.Reachable s) {as : List α}
    (ha : ∀ a, a ∈ as → ∀ s, M.allowed s a) : M.Reachable (as.foldl M.step s) :=
  h.isRun fun pre a hpre =>
    ha a (hpre.subset (List.mem_append_right pre List.mem_cons_self)) _

/-! ## Restricted and undefined steps -/

/-- The runs all of whose steps have `P`. -/
def restrict (M : TransitionSystem σ α) (P : σ → α → Prop) : TransitionSystem σ α where
  init := M.init
  allowed := fun s a => M.allowed s a ∧ P s a
  step := M.step

theorem Reachable.of_restrict {P : σ → α → Prop} {s : σ} (h : (M.restrict P).Reachable s) :
    M.Reachable s := by
  induction h with
  | init hs => exact .init hs
  | step _ ha ih => exact ih.step ha.1

theorem Reachable.restrict_mono {P Q : σ → α → Prop} (hPQ : ∀ s a, P s a → Q s a) {s : σ}
    (h : (M.restrict P).Reachable s) : (M.restrict Q).Reachable s := by
  induction h with
  | init hs => exact .init hs
  | step _ ha ih => exact ih.step ⟨ha.1, hPQ _ _ ha.2⟩

theorem IsRun.restrict_mono {P Q : σ → α → Prop} (hPQ : ∀ s a, P s a → Q s a) {s : σ}
    {as : List α} (h : (M.restrict P).IsRun s as) : (M.restrict Q).IsRun s as :=
  fun pre a hpre => ⟨(h pre a hpre).1, hPQ _ _ (h pre a hpre).2⟩

/-- The system whose steps are those of `M` where they are `defined`. Elsewhere any state that
`outcome` relates to the step can follow. The actions say which state did. -/
def undefine (M : TransitionSystem σ α) (defined : σ → α → Prop) (outcome : σ → α → σ → Prop) :
    TransitionSystem σ (α × σ) where
  init := M.init
  allowed := fun s e => M.allowed s e.1 ∧ (defined s e.1 → e.2 = M.step s e.1) ∧
    (¬ defined s e.1 → outcome s e.1 e.2)
  step := fun _ e => e.2

section Undefine

variable {defined : σ → α → Prop} {outcome : σ → α → σ → Prop} {s s' : σ} {a : α}

theorem Reachable.defined_step (h : (M.undefine defined outcome).Reachable s)
    (ha : M.allowed s a) (hd : defined s a) :
    (M.undefine defined outcome).Reachable (M.step s a) :=
  h.step (a := (a, M.step s a)) ⟨ha, fun _ => rfl, fun hn => absurd hd hn⟩

theorem Reachable.stray_step (h : (M.undefine defined outcome).Reachable s)
    (ha : M.allowed s a) (hd : ¬ defined s a) (ho : outcome s a s') :
    (M.undefine defined outcome).Reachable s' :=
  h.step (a := (a, s')) ⟨ha, fun hdef => absurd hdef hd, fun _ => ho⟩

/-- Runs of defined steps only are the runs of `M` with these steps. -/
theorem reachable_restrict_undefine :
    ((M.undefine defined outcome).restrict fun s e => defined s e.1).Reachable s ↔
      (M.restrict defined).Reachable s := by
  constructor
  · intro h
    induction h with
    | init hs => exact .init hs
    | @step s e _ ha ih =>
      obtain ⟨⟨hallowed, hstep, -⟩, hdef⟩ := ha
      show (M.restrict defined).Reachable e.2
      rw [hstep hdef]
      exact ih.step ⟨hallowed, hdef⟩
  · intro h
    induction h with
    | init hs => exact .init hs
    | @step s a _ ha ih =>
      exact ih.step (a := (a, M.step s a))
        ⟨⟨ha.1, fun _ => rfl, fun hn => absurd ha.2 hn⟩, ha.2⟩

end Undefine

end TransitionSystem

/-! ## Loops -/

/-- The rule of the variant. As long as the loop has not stopped, each step keeps the
invariant `P` and lowers the variant. A stopped loop stays where it is. Then the loop has
stopped after as many steps as the variant says. -/
theorem stopped_of_variant {σ : Type} {step : σ → σ} {P : σ → Prop} (stopped : σ → Prop)
    (variant : σ → Nat) (hstay : ∀ s, stopped s → step s = s)
    (hstep : ∀ s, P s → ¬ stopped s → P (step s) ∧ variant (step s) < variant s) {n : Nat} {s : σ}
    (h : P s) (hn : variant s ≤ n) : stopped (step^[n] s) := by
  induction n generalizing s with
  | zero =>
    by_contra hrun
    have hlt := (hstep s h hrun).2
    omega
  | succ n ih =>
    rw [Function.iterate_succ_apply]
    by_cases hs : stopped s
    · rw [hstay s hs, Function.iterate_fixed (hstay s hs)]
      exact hs
    · obtain ⟨hnext, hlt⟩ := hstep s h hs
      exact ih hnext (by omega)
