import Mathlib.Data.List.Basic

/-!
# Logs of array accesses

A program with arrays is described by the list of its accesses, each an index into one of
the arrays. `InBounds` says that every access of a log lies inside its array. The lemmas
take a log apart along the program that makes it: `InBounds.append_iff` for a sequence,
`InBounds.flatMap_iff` for a loop whose body makes a log of its own, `InBounds.span_iff` for
a loop that visits neighbouring elements. `length_flatMap_le` counts the accesses of a loop.
-/

/-- An access to the element `index` of `array`. -/
structure Access (β : Type) where
  array : β
  index : Nat
deriving DecidableEq, Repr

namespace AccessLog

variable {α β : Type} {size : β → Nat}

/-- Every access of the log lies inside its array, where `size` gives the number of
elements. -/
def InBounds (size : β → Nat) (log : List (Access β)) : Prop :=
  ∀ a, a ∈ log → a.index < size a.array

/-- The accesses to the `n` elements of `array` from index `first` on. -/
def span (array : β) (first n : Nat) : List (Access β) :=
  (List.range n).map fun i => ⟨array, first + i⟩

@[simp] theorem length_span (array : β) (first n : Nat) : (span array first n).length = n := by
  simp [span]

/-- A loop of at most `n` accesses for each element of a list. -/
theorem length_flatMap_le {l : List α} {f : α → List (Access β)} {n : Nat}
    (h : ∀ x, x ∈ l → (f x).length ≤ n) : (l.flatMap f).length ≤ l.length * n := by
  induction l with
  | nil => simp
  | cons x l ih =>
    have hx := h x List.mem_cons_self
    have hl := ih fun y hy => h y (List.mem_cons_of_mem _ hy)
    rw [List.flatMap_cons, List.length_append, List.length_cons, Nat.succ_mul]
    omega

namespace InBounds

@[simp] theorem nil : InBounds size ([] : List (Access β)) := fun _ h => by cases h

@[simp] theorem cons_iff {a : Access β} {log : List (Access β)} :
    InBounds size (a :: log) ↔ a.index < size a.array ∧ InBounds size log :=
  List.forall_mem_cons

@[simp] theorem append_iff {log log' : List (Access β)} :
    InBounds size (log ++ log') ↔ InBounds size log ∧ InBounds size log' :=
  List.forall_mem_append

theorem flatMap_iff {l : List α} {f : α → List (Access β)} :
    InBounds size (l.flatMap f) ↔ ∀ x, x ∈ l → InBounds size (f x) := by
  constructor
  · intro h x hx a ha
    exact h a (List.mem_flatMap.mpr ⟨x, hx, ha⟩)
  · intro h a ha
    obtain ⟨x, hx, hax⟩ := List.mem_flatMap.mp ha
    exact h x hx a hax

theorem span_iff {array : β} {first n : Nat} :
    InBounds size (span array first n) ↔ n = 0 ∨ first + n ≤ size array := by
  constructor
  · intro h
    rcases Nat.eq_zero_or_pos n with hn | hn
    · exact Or.inl hn
    · have hmem : (⟨array, first + (n - 1)⟩ : Access β) ∈ span array first n :=
        List.mem_map.mpr ⟨n - 1, List.mem_range.mpr (by omega), rfl⟩
      have hlast : first + (n - 1) < size array := h _ hmem
      exact Or.inr (by omega)
  · intro h a ha
    obtain ⟨i, hi, rfl⟩ := List.mem_map.mp ha
    have hlt : i < n := List.mem_range.mp hi
    show first + i < size array
    omega

end InBounds

end AccessLog
