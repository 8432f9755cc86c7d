import Mathlib.Data.List.Nodup
import Mathlib.Logic.Function.Basic

/-!
# Owners of resources

Each owner `i` holds a list of resources, no resource is held twice, and every
held resource is marked as used. An allocator keeps this when an owner gives
back what it holds and takes resources that are unused, or were its own:
`Ownership.reassign`.
-/

/-- No resource is held twice, and held resources are marked. -/
structure Ownership {ι β : Type} (owns : ι → List β) (used : β → Prop) : Prop where
  nodup : ∀ i, (owns i).Nodup
  disjoint : ∀ i j, i ≠ j → ∀ b, b ∈ owns i → b ∉ owns j
  marked : ∀ i b, b ∈ owns i → used b

namespace Ownership

variable {ι β : Type} {owns owns' : ι → List β} {used used' : β → Prop}

/-- Owner `i` gives back everything it holds and takes `bs`, none of which is
used by another owner. Marks of other resources stay. -/
theorem reassign (h : Ownership owns used) {i : ι} {bs : List β}
    (hself : owns' i = bs) (hother : ∀ j, j ≠ i → owns' j = owns j)
    (hnodup : bs.Nodup) (hfresh : ∀ b, b ∈ bs → used b → b ∈ owns i)
    (hmark : ∀ b, b ∈ bs → used' b) (hkeep : ∀ b, used b → b ∉ owns i → used' b) :
    Ownership owns' used' := by
  have hapart : ∀ j, j ≠ i → ∀ b, b ∈ owns j → b ∉ bs := by
    intro j hj b hb hbs
    exact h.disjoint j i hj b hb (hfresh b hbs (h.marked j b hb))
  refine ⟨?_, ?_, ?_⟩
  · intro j
    by_cases hj : j = i
    · rw [hj, hself]; exact hnodup
    · rw [hother j hj]; exact h.nodup j
  · intro j k hjk b hb
    by_cases hj : j = i
    · subst hj
      rw [hself] at hb
      rw [hother k (Ne.symm hjk)]
      exact fun hbk => hapart k (Ne.symm hjk) b hbk hb
    · rw [hother j hj] at hb
      by_cases hk : k = i
      · subst hk
        rw [hself]
        exact hapart j hj b hb
      · rw [hother k hk]
        exact h.disjoint j k hjk b hb
  · intro j b hb
    by_cases hj : j = i
    · subst hj
      rw [hself] at hb
      exact hmark b hb
    · rw [hother j hj] at hb
      exact hkeep b (h.marked j b hb) (h.disjoint j i hj b hb)

/-- Ownership depends only on what the owners hold and on the marks of that. -/
theorem congr (h : Ownership owns used) (hown : ∀ i, owns' i = owns i)
    (hkeep : ∀ i b, b ∈ owns i → used b → used' b) : Ownership owns' used' := by
  refine ⟨?_, ?_, ?_⟩
  · intro i; rw [hown i]; exact h.nodup i
  · intro i j hij b hb
    rw [hown i] at hb
    rw [hown j]
    exact h.disjoint i j hij b hb
  · intro i b hb
    rw [hown i] at hb
    exact hkeep i b hb (h.marked i b hb)

end Ownership
