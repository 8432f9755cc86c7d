import Mathlib.Logic.Basic

/-!
# Programs with interrupts

A program works on a state in steps, and between two of its steps something else may change
the state. `Prog` is such a program as a tree of its steps and `Prog.run` its run without
interrupts.

Interrupts are described by an equivalence `R` of the states that they lead between, and the
steps of the program by a relation `K` of the states before and after them. `Insensitive` says
that the program takes the same steps in all states that `R` relates.

* `Insensitive.bind` and its companions follow the text of a program;
* `Insensitive.congr`: an interrupt keeps the rest of the program insensitive;
* `Insensitive.run`: the run after an interrupt is related to the run without it.
-/

namespace Interrupt

/-- A program on states `σ` that returns an `α`. A step is a change of the state, and the rest
of the program depends on the state before it. `stuck` is a loop that does not end. -/
inductive Prog (σ α : Type)
  | done (a : α)
  | stuck
  | next (f : σ → σ) (rest : σ → Prog σ α)

namespace Prog

variable {σ α β : Type}

/-- The run without interrupts. -/
def run : Prog σ α → σ → Option (σ × α)
  | done a, s => some (s, a)
  | stuck, _ => none
  | next f rest, s => (rest s).run (f s)

def bind : Prog σ α → (α → Prog σ β) → Prog σ β
  | done a, g => g a
  | stuck, _ => stuck
  | next f rest, g => next f fun s => (rest s).bind g

instance : Monad (Prog σ) where
  pure := done
  bind := bind

/-- A step that reads. -/
def read (g : σ → α) : Prog σ α := next id fun s => done (g s)

/-- A step that stores. -/
def write (f : σ → σ) : Prog σ Unit := next f fun _ => done ()

@[simp] theorem run_pure (a : α) (s : σ) : (pure a : Prog σ α).run s = some (s, a) := rfl

@[simp] theorem run_read (g : σ → α) (s : σ) : (read g).run s = some (s, g s) := rfl

@[simp] theorem run_write (f : σ → σ) (s : σ) : (write f).run s = some (f s, ()) := rfl

@[simp] theorem run_bind (p : Prog σ α) (g : α → Prog σ β) (s : σ) :
    (p >>= g).run s = (p.run s).bind fun r => (g r.2).run r.1 := by
  show (p.bind g).run s = _
  induction p generalizing s with
  | done a => rfl
  | stuck => rfl
  | next f rest ih => exact ih s (f s)

end Prog

open Prog

section Insensitive

variable {σ α β : Type} {R K : σ → σ → Prop} {p : Prog σ α} {g : α → Prog σ β} {s s' : σ}

/-- The program takes the same steps in `s` and in the states that interrupts make of it, and
a step changes what `K` allows. -/
def Insensitive (R K : σ → σ → Prop) : Prog σ α → σ → Prop
  | done _, _ => True
  | stuck, _ => True
  | next f rest, s => (∀ s', R s s' → R (f s) (f s') ∧ K s' (f s') ∧ rest s' = rest s) ∧
    Insensitive R K (rest s) (f s)

theorem Insensitive.pure (a : α) (s : σ) : Insensitive R K (Pure.pure a : Prog σ α) s := trivial

theorem Insensitive.read {f : σ → α} (hK : ∀ s, K s s) (hf : ∀ s', R s s' → f s' = f s) :
    Insensitive R K (read f) s :=
  ⟨fun s' h => ⟨h, hK s', congrArg done (hf s' h)⟩, trivial⟩

theorem Insensitive.write {f : σ → σ} (hf : ∀ s', R s s' → R (f s) (f s') ∧ K s' (f s')) :
    Insensitive R K (write f) s :=
  ⟨fun s' h => ⟨(hf s' h).1, (hf s' h).2, rfl⟩, trivial⟩

theorem Insensitive.bind (h : Insensitive R K p s)
    (hg : ∀ s' a, p.run s = some (s', a) → Insensitive R K (g a) s') :
    Insensitive R K (p >>= g) s := by
  show Insensitive R K (p.bind g) s
  induction p generalizing s with
  | done a => exact hg s a rfl
  | stuck => trivial
  | next f rest ih =>
    refine ⟨fun s' hs => ?_, ih s h.2 hg⟩
    obtain ⟨hR, hK, hrest⟩ := h.1 s' hs
    exact ⟨hR, hK, congrArg (fun q : Prog σ α => q.bind g) hrest⟩

/-- A program goes on where the run of its first part ends. -/
theorem Insensitive.andThen (h : Insensitive R K p s) {a : α} (hrun : p.run s = some (s', a))
    (hg : Insensitive R K (g a) s') : Insensitive R K (p >>= g) s := by
  refine h.bind fun t b ht => ?_
  obtain ⟨rfl, rfl⟩ := Prod.mk.inj (Option.some.inj (hrun.symm.trans ht))
  exact hg

/-- After an interrupt the rest of the program is as insensitive as before. -/
theorem Insensitive.congr (hR : Equivalence R) (h : Insensitive R K p s) (hs : R s s') :
    Insensitive R K p s' := by
  induction p generalizing s s' with
  | done a => trivial
  | stuck => trivial
  | next f rest ih =>
    obtain ⟨hf, _, hrest⟩ := h.1 s' hs
    refine ⟨fun t ht => ?_, by rw [hrest]; exact ih s h.2 hf⟩
    obtain ⟨hft, hK, hrestt⟩ := h.1 t (hR.trans hs ht)
    exact ⟨hR.trans (hR.symm hf) hft, hK, by rw [hrestt, hrest]⟩

/-- The run after an interrupt returns the same, and is related to the run without it. -/
theorem Insensitive.run (hKrefl : ∀ s, K s s) (hKtrans : ∀ s t u, K s t → K t u → K s u)
    (h : Insensitive R K p s) (hs : R s s') {r : σ} {a : α} (hrun : p.run s = some (r, a)) :
    ∃ r', p.run s' = some (r', a) ∧ R r r' ∧ K s' r' := by
  induction p generalizing s s' with
  | done b =>
    obtain ⟨rfl, rfl⟩ := Prod.mk.inj (Option.some.inj hrun)
    exact ⟨s', rfl, hs, hKrefl s'⟩
  | stuck => cases hrun
  | next f rest ih =>
    obtain ⟨hf, hK, hrest⟩ := h.1 s' hs
    obtain ⟨r', hrun', hr, hK'⟩ := ih s h.2 hf hrun
    refine ⟨r', ?_, hr, hKtrans _ _ _ hK hK'⟩
    show ((rest s').run (f s')) = _
    rw [hrest]
    exact hrun'

end Insensitive

end Interrupt
