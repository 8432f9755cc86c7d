import Mathlib.Data.Finset.Card
import Mathlib.Data.List.Nodup

/-!
# Parent pointers

A forest given by parent pointers: `up x` is the parent of `x`, and `r` is the
common root. `Ascent up r x l` says that the nodes visited from `x` up to the root
are `l`. An ascent is unique and never visits a node twice, so that a node with an
ascent is on no cycle.
-/

variable {ι : Type}

/-- The nodes from `x` up to the root `r`, which is not listed itself. -/
inductive Ascent (up : ι → Option ι) (r : ι) : ι → List ι → Prop
  | root : Ascent up r r []
  | next {x y : ι} {l : List ι} : x ≠ r → up x = some y → Ascent up r y l → Ascent up r x (x :: l)

namespace Ascent

variable {up up' : ι → Option ι} {r x b : ι} {l : List ι}

theorem unique {l' : List ι} (h : Ascent up r x l) (h' : Ascent up r x l') : l = l' := by
  induction h generalizing l' with
  | root =>
    cases h' with
    | root => rfl
    | next hne _ _ => exact absurd rfl hne
  | next hne hup _ ih =>
    cases h' with
    | root => exact absurd rfl hne
    | next _ hup' h' =>
      rw [hup] at hup'
      cases hup'
      rw [ih h']

theorem eq_root (h : Ascent up r x []) : x = r := by
  cases h
  rfl

/-- What is its own parent has no ascent. -/
theorem not_self (hx : x ≠ r) (hup : up x = some x) : ¬ Ascent up r x l := by
  intro h
  cases h with
  | root => exact hx rfl
  | next _ hup' h' =>
    rw [hup] at hup'
    cases hup'
    have hlen := congrArg List.length (h'.unique (.next hx hup h'))
    rw [List.length_cons] at hlen
    omega

/-- Every visited node has an ascent of its own, which is no longer. -/
theorem of_mem (h : Ascent up r x l) (hb : b ∈ l) :
    ∃ l', Ascent up r b l' ∧ l'.length ≤ l.length := by
  induction h with
  | root => exact absurd hb (by simp)
  | next hne hup h ih =>
    rcases List.mem_cons.mp hb with rfl | hb
    · exact ⟨_, .next hne hup h, Nat.le_refl _⟩
    · obtain ⟨l', h', hle⟩ := ih hb
      exact ⟨l', h', Nat.le_succ_of_le hle⟩

/-- No node is visited twice: the second visit would start the same ascent again. -/
theorem nodup (h : Ascent up r x l) : l.Nodup := by
  induction h with
  | root => exact List.nodup_nil
  | next hne hup h ih =>
    refine List.nodup_cons.mpr ⟨fun hx => ?_, ih⟩
    obtain ⟨l', h', hle⟩ := h.of_mem hx
    have := h'.unique (.next hne hup h)
    rw [this, List.length_cons] at hle
    omega

/-- Every visited node has a parent. -/
theorem up_of_mem (h : Ascent up r x l) (hb : b ∈ l) : b ≠ r ∧ (up b).isSome := by
  induction h with
  | root => exact absurd hb (by simp)
  | next hne hup _ ih =>
    rcases List.mem_cons.mp hb with rfl | hb
    · exact ⟨hne, by simp [hup]⟩
    · exact ih hb

/-- The length of an ascent is at most the number of nodes. -/
theorem length_le [DecidableEq ι] (h : Ascent up r x l) {S : Finset ι}
    (hS : ∀ y, y ≠ r → (up y).isSome → y ∈ S) : l.length ≤ S.card := by
  rw [← List.toFinset_card_of_nodup h.nodup]
  refine Finset.card_le_card fun y hy => ?_
  obtain ⟨hne, hup⟩ := h.up_of_mem (List.mem_toFinset.mp hy)
  exact hS y hne hup

/-- An ascent stays when the parents of its nodes do. -/
theorem congr (h : Ascent up r x l) (heq : ∀ y, y ∈ l → up' y = up y) : Ascent up' r x l := by
  induction h with
  | root => exact .root
  | next hne hup _ ih =>
    refine .next hne ?_ (ih fun y hy => heq y (List.mem_cons_of_mem _ hy))
    rw [heq _ List.mem_cons_self, hup]

/-- A node that is nobody's parent is on no other node's ascent. -/
theorem avoid (h : Ascent up r x l) (hx : x ≠ b) (hb : ∀ y, y ≠ r → up y ≠ some b) : b ∉ l := by
  induction h with
  | root => simp
  | next hne hup _ ih =>
    intro hmem
    rcases List.mem_cons.mp hmem with rfl | hmem
    · exact hx rfl
    · exact ih (fun heq => hb _ hne (by rw [hup, heq])) hmem

end Ascent
