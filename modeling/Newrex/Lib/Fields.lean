import Mathlib.Data.List.TakeWhile

/-!
# Fields of a text

A text is cut at a separator by a reader that skips to the next separator and then goes on
behind it. A separator at the end of the text ends the last field and starts no other one.

* `fields_append`: the field in front of a separator;
* `fields_terminated`: a separator behind each of some words gives them back;
* `length_fields_le`: there are no more fields than characters.
-/

namespace Fields

variable {α : Type} [DecidableEq α] (sep : α)

/-- The text in front of the first separator. -/
def field (text : List α) : List α := text.takeWhile (· ≠ sep)

/-- The text behind the first separator. -/
def behind (text : List α) : List α := (text.dropWhile (· ≠ sep)).tail

theorem field_append {w : List α} (hw : sep ∉ w) (rest : List α) :
    field sep (w ++ sep :: rest) = w := by
  have hpos : ∀ c ∈ w, decide (c ≠ sep) = true :=
    fun c hc => decide_eq_true fun heq => hw (heq ▸ hc)
  rw [field, List.takeWhile_append_of_pos hpos, List.takeWhile_cons_of_neg (by simp),
    List.append_nil]

theorem behind_append {w : List α} (hw : sep ∉ w) (rest : List α) :
    behind sep (w ++ sep :: rest) = rest := by
  have hpos : ∀ c ∈ w, decide (c ≠ sep) = true :=
    fun c hc => decide_eq_true fun heq => hw (heq ▸ hc)
  rw [behind, List.dropWhile_append_of_pos hpos, List.dropWhile_cons_of_neg (by simp),
    List.tail_cons]

/-- The reader stops at the end of the text or at a separator. -/
theorem dropWhile_cases (text : List α) :
    text.dropWhile (· ≠ sep) = [] ∧ behind sep text = [] ∧ sep ∉ text ∨
      text.dropWhile (· ≠ sep) = sep :: behind sep text := by
  cases hrest : text.dropWhile (· ≠ sep) with
  | nil =>
    have hnone : ∀ c ∈ text, decide (c ≠ sep) = true := List.dropWhile_eq_nil_iff.mp hrest
    exact Or.inl ⟨rfl, by rw [behind, hrest]; rfl, fun h => by simpa using hnone sep h⟩
  | cons c rest =>
    have hne : text.dropWhile (· ≠ sep) ≠ [] := by rw [hrest]; exact List.cons_ne_nil _ _
    have hstop := List.head_dropWhile_not (· ≠ sep) hne
    simp only [hrest, List.head_cons, decide_eq_false_iff_not, not_not] at hstop
    exact Or.inr (by rw [behind, hrest, hstop, List.tail_cons])

/-- The text is its first field, and what is behind it with a separator in front. -/
theorem text_eq (text : List α) :
    text = field sep text ∨ text = field sep text ++ sep :: behind sep text := by
  have hsplit : text = field sep text ++ text.dropWhile (· ≠ sep) :=
    (List.takeWhile_append_dropWhile (p := (· ≠ sep))).symm
  rcases dropWhile_cases sep text with ⟨hnil, _⟩ | hcut
  · rw [hnil, List.append_nil] at hsplit
    exact Or.inl hsplit
  · rw [hcut] at hsplit
    exact Or.inr hsplit

theorem length_behind_le (text : List α) : (behind sep text).length ≤ text.length := by
  rw [behind, List.length_tail]
  exact Nat.le_trans (Nat.sub_le _ _) (List.dropWhile_suffix _).length_le

theorem length_behind_lt {text : List α} (h : text ≠ []) :
    (behind sep text).length < text.length := by
  have hsuffix := (List.dropWhile_suffix (l := text) (· ≠ sep)).length_le
  rcases dropWhile_cases sep text with ⟨_, hnil, _⟩ | hcut
  · rw [hnil]
    exact List.length_pos_iff.mpr h
  · rwa [hcut] at hsuffix

/-- The fields, one after the other. -/
def fields : List α → List (List α)
  | [] => []
  | c :: text => field sep (c :: text) :: fields (behind sep (c :: text))
termination_by text => text.length
decreasing_by exact length_behind_lt sep (List.cons_ne_nil c text)

theorem fields_of_ne_nil {text : List α} (h : text ≠ []) :
    fields sep text = field sep text :: fields sep (behind sep text) := by
  cases text with
  | nil => exact absurd rfl h
  | cons c text => rw [fields]

theorem fields_nil : fields sep [] = [] := by rw [fields]

theorem fields_append {w : List α} (hw : sep ∉ w) (rest : List α) :
    fields sep (w ++ sep :: rest) = w :: fields sep rest := by
  rw [fields_of_ne_nil sep (List.append_ne_nil_of_right_ne_nil w (List.cons_ne_nil _ _)),
    field_append sep hw, behind_append sep hw]

/-- A separator behind each word. -/
def terminated (words : List (List α)) : List α := words.flatMap (· ++ [sep])

theorem fields_terminated {words : List (List α)} (h : ∀ w ∈ words, sep ∉ w) :
    fields sep (terminated sep words) = words := by
  induction words with
  | nil => exact fields_nil sep
  | cons w words ih =>
    obtain ⟨hw, hwords⟩ := List.forall_mem_cons.mp h
    rw [terminated, List.flatMap_cons, List.append_assoc, List.singleton_append,
      fields_append sep hw]
    exact congrArg (w :: ·) (ih hwords)

theorem length_fields_le (text : List α) : (fields sep text).length ≤ text.length := by
  fun_induction fields sep text with
  | case1 => exact Nat.le_refl 0
  | case2 c text ih =>
    rw [List.length_cons]
    exact Nat.lt_of_le_of_lt ih (length_behind_lt sep (List.cons_ne_nil c text))

end Fields
