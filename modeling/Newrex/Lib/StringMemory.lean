import Mathlib.Data.List.TakeWhile
import Mathlib.Logic.Function.Iterate

/-!
# Terminated strings in a memory

A memory has a value at every address, and `next` goes from one address to the next one. A
string lies in it up to a terminator, and its readers stop there.

* `Holds.update`: a store outside the span of a string leaves it alone;
* `Holds.skip` and `Holds.dropWhile`: a loop that skips characters stops inside the string, or
  at its end;
* `storeAll_at` and `storeAll_outside`: what a sequence of stores changes.
-/

namespace StringMemory

variable {A V : Type} {next : A → A} {nul : V} {mem : A → V} {p a : A} {text : List V}

/-! ## Strings -/

/-- The string at an address. -/
def Holds (next : A → A) (nul : V) (mem : A → V) : A → List V → Prop
  | p, [] => mem p = nul
  | p, c :: text => mem p = c ∧ c ≠ nul ∧ Holds next nul mem (next p) text

/-- The addresses of a string of `n` characters and its terminator. -/
def span (next : A → A) : A → Nat → List A
  | p, 0 => [p]
  | p, n + 1 => p :: span next (next p) n

theorem mem_span_self (p : A) (n : Nat) : p ∈ span next p n := by
  cases n with
  | zero => exact List.mem_cons_self
  | succ n => exact List.mem_cons_self

/-- The end of a string is a string. -/
theorem Holds.drop (n : Nat) (h : Holds next nul mem p text) (hn : n ≤ text.length) :
    Holds next nul mem (next^[n] p) (text.drop n) := by
  induction n generalizing p text with
  | zero => exact h
  | succ n ih =>
    cases text with
    | nil => exact absurd hn (Nat.not_succ_le_zero n)
    | cons c text => exact ih h.2.2 (Nat.le_of_succ_le_succ hn)

theorem span_drop (n : Nat) {len : Nat} (hn : n ≤ len) (ha : a ∈ span next (next^[n] p) (len - n)) :
    a ∈ span next p len := by
  induction n generalizing p len with
  | zero => exact ha
  | succ n ih =>
    cases len with
    | zero => exact absurd hn (Nat.not_succ_le_zero n)
    | succ len =>
      rw [Nat.succ_sub_succ] at ha
      exact List.mem_cons_of_mem p (ih (Nat.le_of_succ_le_succ hn) ha)

/-- A store outside a string. -/
theorem Holds.update [DecidableEq A] (h : Holds next nul mem p text)
    (ha : a ∉ span next p text.length) (v : V) :
    Holds next nul (Function.update mem a v) p text := by
  induction text generalizing p with
  | nil =>
    have hne : p ≠ a := fun heq => ha (heq ▸ List.mem_cons_self)
    exact (Function.update_of_ne hne v mem).trans h
  | cons c text ih =>
    have hne : p ≠ a := fun heq => ha (heq ▸ List.mem_cons_self)
    have hrest : a ∉ span next (next p) text.length := fun hmem =>
      ha (List.mem_cons_of_mem p hmem)
    exact ⟨(Function.update_of_ne hne v mem).trans h.1, h.2.1, ih h.2.2 hrest⟩

/-! ## Loops over a string -/

/-- `while (!stop(*p)) p++;`, in at most `n` tests. -/
def skip (next : A → A) (stop : V → Bool) (mem : A → V) : Nat → A → Option A
  | 0, _ => none
  | n + 1, p => if stop (mem p) then some p else skip next stop mem n (next p)

theorem Holds.skip {stop f : V → Bool} (hnul : stop nul = true)
    (hf : ∀ c, c ≠ nul → f c = !stop c) (h : Holds next nul mem p text)
    {n : Nat} (hn : text.length < n) :
    skip next stop mem n p = some (next^[(text.takeWhile f).length] p) := by
  induction n generalizing p text with
  | zero => exact absurd hn (Nat.not_lt_zero _)
  | succ n ih =>
    cases text with
    | nil =>
      rw [StringMemory.skip, if_pos (by rw [h]; exact hnul)]
      rfl
    | cons c text =>
      rw [StringMemory.skip, h.1]
      cases hstop : stop c with
      | true =>
        rw [if_pos rfl, List.takeWhile_cons_of_neg (by simp [hf c h.2.1, hstop])]
        rfl
      | false =>
        rw [if_neg Bool.false_ne_true, ih h.2.2 (Nat.lt_of_succ_lt_succ hn),
          List.takeWhile_cons_of_pos (by simp [hf c h.2.1, hstop]), List.length_cons]
        rfl

/-- What is left behind the characters of a loop, and where. -/
theorem Holds.dropWhile (f : V → Bool) (h : Holds next nul mem p text) :
    Holds next nul mem (next^[(text.takeWhile f).length] p) (text.dropWhile f) ∧
      ∀ a, a ∈ span next (next^[(text.takeWhile f).length] p) (text.dropWhile f).length →
        a ∈ span next p text.length := by
  have hdrop : (text.takeWhile f ++ text.dropWhile f).drop (text.takeWhile f).length =
      text.dropWhile f := List.drop_left
  rw [List.takeWhile_append_dropWhile] at hdrop
  have hle : (text.takeWhile f).length ≤ text.length := (List.takeWhile_prefix f).length_le
  refine ⟨hdrop ▸ h.drop _ hle, fun a ha => span_drop _ hle ?_⟩
  rwa [← hdrop, List.length_drop] at ha

/-! ## Sequences of stores -/

variable [DecidableEq A]

/-- The values from an address on. -/
def storeAll (next : A → A) (mem : A → V) : A → List V → A → V
  | _, [] => mem
  | a, v :: values => storeAll next (Function.update mem a v) (next a) values

theorem storeAll_outside {values : List V} (h : ∀ i, i < values.length → a ≠ next^[i] p) :
    storeAll next mem p values a = mem a := by
  induction values generalizing mem p with
  | nil => rfl
  | cons v values ih =>
    have hne : a ≠ p := h 0 (Nat.succ_pos _)
    rw [storeAll, ih fun i hi => h (i + 1) (Nat.succ_lt_succ hi), Function.update_of_ne hne]

/-- No address comes twice. -/
theorem storeAll_at {values : List V}
    (hinj : ∀ i j, i < values.length → j < values.length → next^[i] p = next^[j] p → i = j)
    {i : Nat} (hi : i < values.length) :
    storeAll next mem p values (next^[i] p) = values[i] := by
  induction values generalizing mem p i with
  | nil => exact absurd hi (Nat.not_lt_zero i)
  | cons v values ih =>
    rw [storeAll]
    cases i with
    | zero =>
      have hfirst : ∀ j, j < values.length → p ≠ next^[j] (next p) := fun j hj heq =>
        Nat.succ_ne_zero j (hinj (j + 1) 0 (Nat.succ_lt_succ hj) (Nat.succ_pos _) heq.symm)
      exact (storeAll_outside hfirst).trans (Function.update_self p v mem)
    | succ i =>
      exact ih (fun j k hj hk heq => Nat.succ.inj
        (hinj (j + 1) (k + 1) (Nat.succ_lt_succ hj) (Nat.succ_lt_succ hk) heq))
        (Nat.lt_of_succ_lt_succ hi)

end StringMemory
