import Mathlib.Data.List.Perm.Basic

/-!
# Tables of alternatives

A table of entries that are tried one after the other on an input, of which the first that fires
is taken. In a clear table no two entries fire on the same input.

* `select_eq_some_iff`: in a clear table the entry that is taken is the one that fires;
* `select_perm`: so that the order of the entries does not matter;
* `select_filter`: and a part of the table takes what the whole table takes, if it has it;
* `clear_of_overlap`: clearness from a test of the entries, without the inputs;
* `select_prune`: entries that an earlier one covers are never taken.
-/

namespace Dispatch

variable {ε σ ρ : Type} {fires : ε → σ → Option ρ} {table : List ε} {s : σ}

/-- The first entry that fires, with what it makes of the input. -/
def select (fires : ε → σ → Option ρ) (table : List ε) (s : σ) : Option (ε × ρ) :=
  table.findSome? fun e => (fires e s).map fun r => (e, r)

/-- No two entries fire on the same input. -/
def Clear (fires : ε → σ → Option ρ) (table : List ε) : Prop :=
  table.Pairwise fun a b => ∀ s r r', fires a s = some r → fires b s ≠ some r'

theorem clear_of_overlap (overlap : ε → ε → Bool)
    (hoverlap : ∀ a b s r r', fires a s = some r → fires b s = some r' → overlap a b = true)
    (h : table.Pairwise fun a b => overlap a b = false) : Clear fires table :=
  h.imp fun hab s r r' ha hb => Bool.false_ne_true (hab.symm.trans (hoverlap _ _ s r r' ha hb))

theorem select_cons (e : ε) (table : List ε) (s : σ) :
    select fires (e :: table) s =
      ((fires e s).map fun r => (e, r)).or (select fires table s) := by
  rw [select, List.findSome?_cons]
  cases fires e s with
  | none => rfl
  | some r => rfl

theorem select_congr {fires' : ε → σ → Option ρ} (h : ∀ e, e ∈ table → fires e s = fires' e s) :
    select fires table s = select fires' table s := by
  induction table with
  | nil => rfl
  | cons a table ih =>
    rw [select_cons, select_cons, h a List.mem_cons_self,
      ih fun e he => h e (List.mem_cons_of_mem a he)]

theorem select_map {δ : Type} (f : δ → ε) (table : List δ) (s : σ) :
    select fires (table.map f) s =
      (select (fun d => fires (f d)) table s).map fun dr => (f dr.1, dr.2) := by
  induction table with
  | nil => rfl
  | cons a table ih =>
    rw [List.map_cons, select_cons, select_cons, ih]
    cases fires (f a) s with
    | none => rfl
    | some r => rfl

theorem clear_map {δ : Type} {f : δ → ε} {table : List δ}
    (h : Clear (fun d => fires (f d)) table) : Clear fires (table.map f) :=
  List.pairwise_map.mpr h

theorem mem_of_select {e : ε} {r : ρ} (h : select fires table s = some (e, r)) :
    e ∈ table ∧ fires e s = some r := by
  obtain ⟨e', he', hr⟩ := List.exists_of_findSome?_eq_some h
  obtain ⟨r', hr', heq⟩ := Option.map_eq_some_iff.mp hr
  cases heq
  exact ⟨he', hr'⟩

/-- In a clear table the entry that is taken is the one that fires. -/
theorem select_eq_some_iff (hclear : Clear fires table) {e : ε} {r : ρ} :
    select fires table s = some (e, r) ↔ e ∈ table ∧ fires e s = some r := by
  refine ⟨mem_of_select, ?_⟩
  rintro ⟨hmem, hfires⟩
  induction table with
  | nil => cases hmem
  | cons a table ih =>
    obtain ⟨ha, hclear⟩ := List.pairwise_cons.mp hclear
    rw [select_cons]
    rcases List.mem_cons.mp hmem with rfl | hmem
    · rw [hfires]
      rfl
    · cases hsome : fires a s with
      | none => exact ih hclear hmem
      | some r' => exact absurd hfires (ha e hmem s r' r hsome)

/-- The order of the entries does not matter. -/
theorem select_perm {table' : List ε} (hclear : Clear fires table) (hperm : table.Perm table')
    (s : σ) : select fires table' s = select fires table s := by
  have hclear' : Clear fires table' :=
    (hperm.pairwise_iff fun {a b} hab s r r' hb ha => hab s r' r ha hb).mp hclear
  refine Option.ext fun ⟨e, r⟩ => ?_
  rw [select_eq_some_iff hclear, select_eq_some_iff hclear', hperm.mem_iff]

/-- A part of the table takes what the whole table takes, if that is in the part. -/
theorem select_filter (hclear : Clear fires table) (P : ε → Bool) (s : σ) :
    select fires (table.filter P) s = (select fires table s).filter fun er => P er.1 := by
  have hclear' : Clear fires (table.filter P) := List.Pairwise.filter P hclear
  refine Option.ext fun ⟨e, r⟩ => ?_
  rw [select_eq_some_iff hclear', Option.filter_eq_some_iff, select_eq_some_iff hclear,
    List.mem_filter]
  constructor
  · rintro ⟨⟨hmem, hP⟩, hfires⟩
    exact ⟨⟨hmem, hfires⟩, hP⟩
  · rintro ⟨⟨hmem, hfires⟩, hP⟩
    exact ⟨⟨hmem, hP⟩, hfires⟩

/-! ## Covered entries -/

/-- Entries that do not fire can be left out. -/
theorem select_filter_of_silent (P : ε → Bool)
    (h : ∀ e, e ∈ table → P e = false → fires e s = none) :
    select fires (table.filter P) s = select fires table s := by
  induction table with
  | nil => rfl
  | cons a table ih =>
    have ih := ih fun e he => h e (List.mem_cons_of_mem a he)
    rw [select_cons, ← ih]
    cases hP : P a with
    | true => rw [List.filter_cons_of_pos hP, select_cons]
    | false =>
      rw [List.filter_cons_of_neg (Bool.eq_false_iff.mp hP), h a List.mem_cons_self hP]
      rfl

/-- The table without the entries that an earlier one covers. -/
def prune (covers : ε → ε → Bool) : List ε → List ε
  | [] => []
  | e :: table => e :: (prune covers table).filter fun b => !covers e b

/-- An entry that fires only where an earlier one fires is never taken. -/
theorem select_prune {covers : ε → ε → Bool}
    (hcovers : ∀ a b s, covers a b = true → fires a s = none → fires b s = none)
    (table : List ε) (s : σ) : select fires (prune covers table) s = select fires table s := by
  induction table with
  | nil => rfl
  | cons a table ih =>
    rw [prune, select_cons, select_cons]
    cases ha : fires a s with
    | some r => rfl
    | none =>
      have hsilent : ∀ e, e ∈ prune covers table → (!covers a e) = false → fires e s = none := by
        intro e _ he
        exact hcovers a e s (by simpa using he) ha
      rw [select_filter_of_silent _ hsilent, ih]

end Dispatch
