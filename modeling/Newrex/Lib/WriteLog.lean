import Mathlib.Logic.Function.Basic

/-!
# A store and the log of its writes

A write replaces the value at one address. `applyWrites` replays a log, and a store
interrupted in the middle of a log holds the replay of a prefix of it. `AtEveryCut` is a
property of all these stores.
-/

namespace WriteLog

variable {ι β : Type} [DecidableEq ι]

/-- The store after the writes `ws`, oldest first. -/
def applyWrites (ws : List (ι × β)) (d : ι → β) : ι → β :=
  ws.foldl (fun d w => Function.update d w.1 w.2) d

@[simp] theorem applyWrites_cons (w : ι × β) (ws : List (ι × β)) (d : ι → β) :
    applyWrites (w :: ws) d = applyWrites ws (Function.update d w.1 w.2) := rfl

theorem applyWrites_append (ws vs : List (ι × β)) (d : ι → β) :
    applyWrites (ws ++ vs) d = applyWrites vs (applyWrites ws d) := List.foldl_append

/-- An address that no write of the log names keeps its value. -/
theorem applyWrites_of_ne {ws : List (ι × β)} {a : ι} (h : ∀ w, w ∈ ws → w.1 ≠ a) (d : ι → β) :
    applyWrites ws d a = d a := by
  induction ws generalizing d with
  | nil => rfl
  | cons w ws ih =>
    rw [applyWrites_cons, ih fun v hv => h v (List.mem_cons_of_mem _ hv)]
    exact Function.update_of_ne (h w List.mem_cons_self).symm _ _

/-- Wherever the log is cut, the store has the property. -/
def AtEveryCut (P : (ι → β) → Prop) (ws : List (ι × β)) (d : ι → β) : Prop :=
  ∀ k, P (applyWrites (ws.take k) d)

/-- What holds of the value at one address, and of all values written to it, holds wherever the
log is cut. -/
theorem atEveryCut_of_writes {P : β → Prop} {ws : List (ι × β)} {d : ι → β} {a : ι} (h : P (d a))
    (hws : ∀ w, w ∈ ws → w.1 = a → P w.2) : AtEveryCut (fun d => P (d a)) ws d := by
  intro k
  induction ws generalizing d k with
  | nil => rwa [List.take_nil]
  | cons w ws ih =>
    cases k with
    | zero => exact h
    | succ k =>
      refine ih (d := Function.update d w.1 w.2) ?_
        (fun v hv => hws v (List.mem_cons_of_mem _ hv)) k
      by_cases ha : w.1 = a
      · rw [← ha, Function.update_self]
        exact hws w List.mem_cons_self ha
      · rw [Function.update_of_ne (Ne.symm ha)]
        exact h

theorem atEveryCut_nil {P : (ι → β) → Prop} {d : ι → β} (h : P d) : AtEveryCut P [] d :=
  fun _ => by rwa [List.take_nil]

/-- One more write. -/
theorem AtEveryCut.snoc {P : (ι → β) → Prop} {ws : List (ι × β)} {d : ι → β}
    (h : AtEveryCut P ws d) {w : ι × β} (hw : P (Function.update (applyWrites ws d) w.1 w.2)) :
    AtEveryCut P (ws ++ [w]) d := by
  intro k
  by_cases hk : k ≤ ws.length
  · rw [List.take_append_of_le_length hk]
    exact h k
  · rw [List.take_of_length_le (by rw [List.length_append, List.length_singleton]; omega),
      applyWrites_append]
    exact hw

theorem AtEveryCut.mono {P Q : (ι → β) → Prop} (hPQ : ∀ d, P d → Q d) {ws : List (ι × β)}
    {d : ι → β} (h : AtEveryCut P ws d) : AtEveryCut Q ws d := fun k => hPQ _ (h k)

end WriteLog
