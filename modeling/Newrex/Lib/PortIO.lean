import Mathlib.Logic.Function.Iterate

/-!
# Drivers that talk to a device through ports

A device is a state machine that answers the accesses to its ports, and a driver is a program
of such accesses. A driver may read a port again and again until it is satisfied; the time that
this takes is up to the device. `Driver.run` is executable and takes the number of readings that
a loop may need as fuel, and `Ends` says that some fuel is enough.

* `Ends.bind`, `ends_await` and their companions follow the text of a driver;
* `Polls`: how often a loop reads does not matter, only that it ends;
* `not_ends_await`: a device that never gives the awaited answer blocks the driver for ever.
-/

namespace PortIO

/-- A device with the state `σ`: its reaction to a value written to a port, the value that it
returns when a port is read, and what becomes of it while the driver does something else. -/
structure Device (σ : Type) where
  write : σ → (port value : UInt16) → σ
  read : σ → (port : UInt16) → σ × UInt16
  rest : σ → σ

/-- A driver that returns an `α`. `poll` reads a port until the value passes a test. -/
inductive Driver (α : Type)
  | done (a : α)
  | out (port value : UInt16) (next : Driver α)
  | inp (port : UInt16) (next : UInt16 → Driver α)
  | poll (port : UInt16) (ready : UInt16 → Bool) (next : UInt16 → Driver α)
  | rest (next : Driver α)

variable {σ α β : Type} {D : Device σ}

namespace Driver

def bind : Driver α → (α → Driver β) → Driver β
  | done a, g => g a
  | out port value next, g => out port value (next.bind g)
  | inp port next, g => inp port fun v => (next v).bind g
  | poll port ready next, g => poll port ready fun v => (next v).bind g
  | rest next, g => rest (next.bind g)

instance : Monad Driver where
  pure := done
  bind := bind

/-- One access. -/
def outp (port value : UInt16) : Driver Unit := out port value (done ())
def input (port : UInt16) : Driver UInt16 := inp port done
def await (port : UInt16) (ready : UInt16 → Bool) : Driver UInt16 := poll port ready done
def pause : Driver Unit := rest (done ())

/-- The device after `n` pauses. -/
def pauses : Nat → Driver Unit
  | 0 => pure ()
  | n + 1 => do pause; pauses n

/-- `n` values read from a port. -/
def inputs (port : UInt16) : Nat → Driver (List UInt16)
  | 0 => pure []
  | n + 1 => do
    let v ← input port
    let vs ← inputs port n
    pure (v :: vs)

/-- Values written to a port. -/
def outputs (port : UInt16) : List UInt16 → Driver Unit
  | [] => pure ()
  | v :: vs => do outp port v; outputs port vs

end Driver

/-! ## Execution -/

/-- A loop that reads a port, for at most `fuel` readings. -/
def pollLoop (D : Device σ) (port : UInt16) (ready : UInt16 → Bool) :
    (fuel : Nat) → σ → Option (σ × UInt16)
  | 0, _ => none
  | fuel + 1, s =>
    let r := D.read s port
    if ready r.2 then some r else pollLoop D port ready fuel r.1

/-- A run of a driver; no loop reads more often than the fuel says. -/
def Driver.run (D : Device σ) (fuel : Nat) : Driver α → σ → Option (σ × α)
  | .done a, s => some (s, a)
  | .out port value next, s => next.run D fuel (D.write s port value)
  | .inp port next, s => (next (D.read s port).2).run D fuel (D.read s port).1
  | .poll port ready next, s =>
    (pollLoop D port ready fuel s).bind fun r => (next r.2).run D fuel r.1
  | .rest next, s => next.run D fuel (D.rest s)

/-- With enough fuel the driver ends like this. -/
def Ends (D : Device σ) (p : Driver α) (s : σ) (r : σ × α) : Prop :=
  ∃ fuel, p.run D fuel s = some r

theorem pollLoop_mono {port : UInt16} {ready : UInt16 → Bool} {fuel fuel' : Nat}
    (hle : fuel ≤ fuel') {s : σ} {r : σ × UInt16} (h : pollLoop D port ready fuel s = some r) :
    pollLoop D port ready fuel' s = some r := by
  induction fuel generalizing fuel' s with
  | zero => cases h
  | succ fuel ih =>
    obtain ⟨fuel', rfl⟩ := Nat.exists_eq_add_of_lt (Nat.lt_of_lt_of_le (Nat.succ_pos _) hle)
    rw [Nat.zero_add] at hle ⊢
    rw [pollLoop] at h ⊢
    split at h
    case isTrue hready => rw [if_pos hready, h]
    case isFalse hready => rw [if_neg hready, ih (Nat.le_of_succ_le_succ hle) h]

theorem Driver.run_mono {p : Driver α} {fuel fuel' : Nat} (hle : fuel ≤ fuel') {s : σ}
    {r : σ × α} (h : p.run D fuel s = some r) : p.run D fuel' s = some r := by
  induction p generalizing s with
  | done a => exact h
  | out port value next ih => exact ih h
  | inp port next ih => exact ih _ h
  | poll port ready next ih =>
    obtain ⟨t, hpoll, hrest⟩ := Option.bind_eq_some_iff.mp h
    exact Option.bind_eq_some_iff.mpr ⟨t, pollLoop_mono hle hpoll, ih _ hrest⟩
  | rest next ih => exact ih h

/-- A driver ends in one way only. -/
theorem Ends.unique {p : Driver α} {s : σ} {r r' : σ × α} (h : Ends D p s r)
    (h' : Ends D p s r') : r = r' := by
  obtain ⟨fuel, h⟩ := h
  obtain ⟨fuel', h'⟩ := h'
  have hmax := Driver.run_mono (Nat.le_max_left fuel fuel') h
  exact Option.some.inj (hmax.symm.trans (Driver.run_mono (Nat.le_max_right fuel fuel') h'))

/-! ## Rules -/

theorem Driver.run_bind (p : Driver α) (g : α → Driver β) (fuel : Nat) (s : σ) :
    (p >>= g).run D fuel s = (p.run D fuel s).bind fun r => (g r.2).run D fuel r.1 := by
  show (p.bind g).run D fuel s = _
  induction p generalizing s with
  | done a => rfl
  | out port value next ih => exact ih _
  | inp port next ih => exact ih _ _
  | poll port ready next ih =>
    rw [Driver.bind, Driver.run, Driver.run]
    cases pollLoop D port ready fuel s with
    | none => rfl
    | some r => exact ih _ _
  | rest next ih => exact ih _

theorem Ends.pure (a : α) (s : σ) : Ends D (Pure.pure a) s (s, a) := ⟨0, rfl⟩

theorem Ends.bind {p : Driver α} {g : α → Driver β} {s t : σ} {a : α} {r : σ × β}
    (hp : Ends D p s (t, a)) (hg : Ends D (g a) t r) : Ends D (p >>= g) s r := by
  obtain ⟨fuel, hp⟩ := hp
  obtain ⟨fuel', hg⟩ := hg
  refine ⟨max fuel fuel', ?_⟩
  rw [Driver.run_bind, Driver.run_mono (Nat.le_max_left _ _) hp]
  exact Driver.run_mono (Nat.le_max_right _ _) hg

/-- The first part of a driver that ends has ended. -/
theorem Ends.of_bind {p : Driver α} {g : α → Driver β} {s : σ} {r : σ × β}
    (h : Ends D (p >>= g) s r) : ∃ t a, Ends D p s (t, a) ∧ Ends D (g a) t r := by
  obtain ⟨fuel, h⟩ := h
  rw [Driver.run_bind] at h
  obtain ⟨⟨t, a⟩, hp, hg⟩ := Option.bind_eq_some_iff.mp h
  exact ⟨t, a, ⟨fuel, hp⟩, fuel, hg⟩

/-- What follows a part that ends decides. -/
theorem Ends.bind_iff {p : Driver α} {g : α → Driver β} {s t : σ} {a : α} {r : σ × β}
    (hp : Ends D p s (t, a)) : Ends D (p >>= g) s r ↔ Ends D (g a) t r := by
  constructor
  · intro h
    obtain ⟨t', a', hp', hg⟩ := h.of_bind
    cases hp.unique hp'
    exact hg
  · exact hp.bind

theorem ends_outp (port value : UInt16) (s : σ) :
    Ends D (.outp port value) s (D.write s port value, ()) := ⟨0, rfl⟩

theorem ends_input (port : UInt16) (s : σ) : Ends D (.input port) s (D.read s port) := ⟨0, rfl⟩

theorem ends_pauses (n : Nat) (s : σ) : Ends D (.pauses n) s (D.rest^[n] s, ()) := by
  induction n generalizing s with
  | zero => exact ⟨0, rfl⟩
  | succ n ih =>
    obtain ⟨fuel, h⟩ := ih (D.rest s)
    exact ⟨fuel, h⟩

/-- A loop reads until the device gives the awaited answer. -/
inductive Polls (D : Device σ) (port : UInt16) (ready : UInt16 → Bool) : σ → σ × UInt16 → Prop
  | now {s : σ} : ready (D.read s port).2 = true → Polls D port ready s (D.read s port)
  | later {s : σ} {r : σ × UInt16} : ready (D.read s port).2 = false →
      Polls D port ready (D.read s port).1 r → Polls D port ready s r

theorem ends_await {port : UInt16} {ready : UInt16 → Bool} {s : σ} {r : σ × UInt16}
    (h : Polls D port ready s r) : Ends D (.await port ready) s r := by
  have hloop : ∃ fuel, pollLoop D port ready fuel s = some r := by
    induction h with
    | now hready => exact ⟨1, by rw [pollLoop, if_pos hready]⟩
    | later hready _ ih =>
      obtain ⟨fuel, h⟩ := ih
      exact ⟨fuel + 1, by rw [pollLoop, if_neg (by rw [hready]; exact Bool.false_ne_true), h]⟩
  obtain ⟨fuel, hloop⟩ := hloop
  exact ⟨fuel, by rw [Driver.await, Driver.run, hloop]; rfl⟩

/-- In states from which the awaited answer never comes, the loop does not end. -/
theorem not_ends_await {port : UInt16} {ready : UInt16 → Bool} {P : σ → Prop}
    (hP : ∀ s, P s → ready (D.read s port).2 = false ∧ P (D.read s port).1) {s : σ} (hs : P s)
    (r : σ × UInt16) : ¬ Ends D (.await port ready) s r := by
  have hloop : ∀ fuel s, P s → pollLoop D port ready fuel s = none := by
    intro fuel
    induction fuel with
    | zero => exact fun _ _ => rfl
    | succ fuel ih =>
      intro s hs
      obtain ⟨hready, hnext⟩ := hP s hs
      rw [pollLoop, if_neg (by rw [hready]; exact Bool.false_ne_true), ih _ hnext]
  rintro ⟨fuel, h⟩
  rw [Driver.await, Driver.run, hloop fuel s hs] at h
  cases h

end PortIO
