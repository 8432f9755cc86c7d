import Mathlib.Data.List.Basic
import Mathlib.Data.List.Rotate
import Mathlib.Logic.Function.Iterate

/-!
# Singly linked rings

Nodes that a pointer `nxt` links into a ring. `Links nxt l e` says that the
pointers lead through the list `l` and from its last node to `e`; a ring is a
list that leads back to its own head.

* `links_append` cuts and joins chains of links;
* `Links.rotate`: a ring may be entered at any of its nodes;
* `Links.insertLast`: a node is linked in between the last node and the head;
* `Links.cycle`: following the pointers from the head visits the list in order
  and comes back, and `IsCycle.links` is the converse;
* `turns`: the nodes with some property, in ring order behind a node. When the first of them is
  entered, it becomes the last (`turns_next`).
-/

namespace Ring

variable {α : Type} {nxt nxt' : α → α} {l m pre post : List α} {c e t : α}

/-- The pointers lead through `l`, and from its last node to `e`. -/
def Links (nxt : α → α) : List α → α → Prop
  | [], _ => True
  | x :: l, e => nxt x = l.headD e ∧ Links nxt l e

/-- Following `nxt` from `start` visits the nodes of the list in order, each once,
and then comes back to `start`. -/
structure IsCycle (nxt : α → α) (start : α) (l : List α) : Prop where
  nodup : l.Nodup
  visits : ∀ i, i < l.length → l[i]? = some (nxt^[i] start)
  closes : nxt^[l.length] start = start

theorem headD_append (l m : List α) (e : α) : (l ++ m).headD e = l.headD (m.headD e) := by
  cases l with
  | nil => rfl
  | cons x l => rfl

theorem links_append : Links nxt (l ++ m) e ↔ Links nxt l (m.headD e) ∧ Links nxt m e := by
  induction l with
  | nil => exact (true_and _).to_iff.symm
  | cons x l ih => rw [List.cons_append, Links, Links, ih, headD_append, and_assoc]

/-- Links depend only on the pointers of their nodes. -/
theorem Links.congr (h : Links nxt l e) (heq : ∀ x, x ∈ l → nxt' x = nxt x) : Links nxt' l e := by
  induction l with
  | nil => trivial
  | cons x l ih =>
    obtain ⟨hx, hl⟩ := h
    exact ⟨(heq x List.mem_cons_self).trans hx, ih hl fun y hy => heq y (List.mem_cons_of_mem x hy)⟩

/-- The pointers of a chain stay in it, or leave it at its end. -/
theorem Links.next_mem (h : Links nxt l e) {x : α} (hx : x ∈ l) : nxt x ∈ l ∨ nxt x = e := by
  induction l with
  | nil => exact absurd hx List.not_mem_nil
  | cons y l ih =>
    obtain ⟨hy, hl⟩ := h
    rcases List.mem_cons.mp hx with rfl | hx
    · cases l with
      | nil => exact Or.inr hy
      | cons z l =>
        rw [hy]
        exact Or.inl (List.mem_cons_of_mem _ List.mem_cons_self)
    · exact (ih hl hx).imp_left (List.mem_cons_of_mem y)

/-- Entering a ring at its node `c`. -/
theorem Links.rotate (h : Links nxt (pre ++ c :: post) ((pre ++ c :: post).headD c)) :
    Links nxt (c :: (post ++ pre)) c := by
  obtain ⟨hpre, hc, hpost⟩ := links_append.mp h
  have hhead : (pre ++ c :: post).headD c = pre.headD c := headD_append pre (c :: post) c
  rw [hhead] at hc hpost
  refine ⟨?_, links_append.mpr ⟨hpost, hpre⟩⟩
  rw [hc, headD_append]

/-- Linking a new node in between the last node `c` of a ring and its head. -/
theorem Links.insertLast (h : Links nxt (pre ++ [c]) e) (hc : nxt' c = t) (ht : nxt' t = e)
    (hpre : ∀ x, x ∈ pre → nxt' x = nxt x) : Links nxt' (pre ++ [c] ++ [t]) e := by
  obtain ⟨hlinks, _⟩ := links_append.mp h
  exact links_append.mpr ⟨links_append.mpr ⟨hlinks.congr hpre, hc, trivial⟩, ht, trivial⟩

/-- After `i` pointers from the head. -/
theorem Links.iterate (h : Links nxt l e) (i : Nat) (hi : i ≤ l.length) :
    nxt^[i] (l.headD e) = (l.drop i).headD e := by
  induction i generalizing l with
  | zero => rfl
  | succ i ih =>
    cases l with
    | nil => exact absurd hi (Nat.not_succ_le_zero i)
    | cons x l =>
      obtain ⟨hx, hl⟩ := h
      rw [Function.iterate_succ_apply, List.headD_cons, hx, List.drop_succ_cons]
      exact ih hl (Nat.le_of_succ_le_succ hi)

theorem Links.cycle {x : α} (h : Links nxt (x :: l) x) (hnodup : (x :: l).Nodup) :
    IsCycle nxt x (x :: l) where
  nodup := hnodup
  visits := by
    intro i hi
    have hit : nxt^[i] x = ((x :: l).drop i).headD x := h.iterate i (Nat.le_of_lt hi)
    rw [hit, List.drop_eq_getElem_cons hi, List.getElem?_eq_getElem hi]
    rfl
  closes := by
    have hit : nxt^[(x :: l).length] x = ((x :: l).drop (x :: l).length).headD x :=
      h.iterate _ (Nat.le_refl _)
    rw [hit, List.drop_length]
    rfl

theorem links_of_getElem (h : ∀ i (hi : i < l.length), nxt l[i] = (l.drop (i + 1)).headD e) :
    Links nxt l e := by
  induction l with
  | nil => trivial
  | cons x l ih => exact ⟨h 0 (Nat.succ_pos _), ih fun i hi => h (i + 1) (Nat.succ_lt_succ hi)⟩

theorem IsCycle.links {start : α} (h : IsCycle nxt start l) : Links nxt l start := by
  refine links_of_getElem fun i hi => ?_
  have hat := h.visits i hi
  rw [List.getElem?_eq_getElem hi] at hat
  rw [Option.some.inj hat, ← Function.iterate_succ_apply' nxt i start]
  rcases Nat.lt_or_eq_of_le (Nat.succ_le_of_lt hi) with hlt | heq
  · have hnext := h.visits (i + 1) hlt
    rw [List.getElem?_eq_getElem hlt] at hnext
    rw [List.drop_eq_getElem_cons hlt, List.headD_cons]
    exact (Option.some.inj hnext).symm
  · rw [List.drop_of_length_le (Nat.le_of_eq heq.symm), List.headD_nil]
    show nxt^[i.succ] start = start
    rw [heq]
    exact h.closes

theorem IsCycle.head {start : α} (h : IsCycle nxt start l) (hne : l ≠ []) (e : α) :
    l.headD e = start := by
  cases l with
  | nil => exact absurd rfl hne
  | cons x l => exact Option.some.inj (h.visits 0 (Nat.succ_pos _))

/-- A cycle depends only on the pointers of its nodes. -/
theorem IsCycle.congr {start : α} (h : IsCycle nxt start l) (heq : ∀ x, x ∈ l → nxt' x = nxt x) :
    IsCycle nxt' start l := by
  have hlinks := h.links.congr heq
  cases l with
  | nil => exact ⟨List.nodup_nil, fun i hi => absurd hi (Nat.not_lt_zero i), rfl⟩
  | cons x l =>
    have hx := h.head (List.cons_ne_nil x l) x
    rw [← hx] at hlinks ⊢
    exact hlinks.cycle h.nodup

/-! ## Taking turns -/

section Turns

variable [DecidableEq α] {p q : α → Bool}

/-- The nodes of the ring `l` with the property `p`, in ring order behind the node `c`, which
comes last. -/
def turns (p : α → Bool) (l : List α) (c : α) : List α := (l.rotate (l.idxOf c + 1)).filter p

theorem turns_eq (hnodup : (pre ++ c :: post).Nodup) :
    turns p (pre ++ c :: post) c = (post ++ (pre ++ [c])).filter p := by
  have hpre : c ∉ pre := fun hmem =>
    (List.nodup_cons.mp (List.nodup_middle.mp hnodup)).1 (List.mem_append_left post hmem)
  have hidx : (pre ++ c :: post).idxOf c + 1 = (pre ++ [c]).length := by
    rw [List.idxOf_append_of_notMem hpre, List.idxOf_cons_self, List.length_append,
      List.length_singleton]
  have happend : pre ++ c :: post = (pre ++ [c]) ++ post := by simp
  rw [turns, hidx, happend, List.rotate_append_length_eq]

/-- The node itself comes last. -/
theorem turns_last (hnodup : l.Nodup) (hmem : c ∈ l) (hc : p c = true) :
    ∃ rest, turns p l c = rest ++ [c] := by
  obtain ⟨pre, post, rfl⟩ := List.append_of_mem hmem
  refine ⟨(post ++ pre).filter p, ?_⟩
  rw [turns_eq hnodup, ← List.append_assoc, List.filter_append, List.filter_cons_of_pos hc,
    List.filter_nil]

theorem turns_perm (p : α → Bool) (l : List α) (c : α) : (turns p l c).Perm (l.filter p) :=
  (l.rotate_perm _).filter p

theorem turns_congr (h : ∀ x, x ∈ l → q x = p x) : turns q l c = turns p l c :=
  List.filter_congr fun x hx => h x (List.mem_rotate.mp hx)

/-- The ring is entered at the first node with the property behind `c`. It moves from the first
to the last place. -/
theorem turns_next (hnodup : (pre ++ c :: post).Nodup) (hc : p c = true) :
    ∃ rest, turns p (pre ++ c :: post) c = ((post ++ pre).find? p).getD c :: rest ∧
      turns p (pre ++ c :: post) (((post ++ pre).find? p).getD c) =
        rest ++ [((post ++ pre).find? p).getD c] := by
  have hturns := turns_eq (p := p) hnodup
  cases hfind : (post ++ pre).find? p with
  | none =>
    have hnone : (post ++ pre).filter p = [] :=
      List.filter_eq_nil_iff.mpr (List.find?_eq_none.mp hfind)
    rw [← List.append_assoc, List.filter_append, hnone, List.filter_cons_of_pos hc] at hturns
    exact ⟨[], hturns, hturns⟩
  | some x =>
    obtain ⟨hx, as, bs, hsplit, has⟩ := List.find?_eq_some_iff_append.mp hfind
    have hnot : as.filter p = [] := List.filter_eq_nil_iff.mpr fun a ha => by
      simpa using has a ha
    have hrest : turns p (pre ++ c :: post) c = x :: (bs ++ [c]).filter p := by
      rw [hturns, ← List.append_assoc, hsplit, List.append_assoc, List.filter_append, hnot,
        List.nil_append, List.cons_append, List.filter_cons_of_pos hx]
    refine ⟨_, hrest, ?_⟩
    rw [Option.getD_some]
    -- `x` comes before or behind `c` in the list
    have hbefore (as' : List α) (has' : as = post ++ as') (hpre : pre = as' ++ x :: bs) :
        turns p (pre ++ c :: post) x = (bs ++ [c]).filter p ++ [x] := by
      rw [hpre, List.append_assoc, List.cons_append] at hnodup ⊢
      rw [has', List.filter_append, List.append_eq_nil_iff] at hnot
      rw [turns_eq hnodup]
      simp only [List.filter_append, List.filter_cons_of_pos hc, List.filter_cons_of_pos hx,
        List.filter_nil, hnot.1, hnot.2, List.nil_append, List.append_assoc]
    rcases List.append_eq_append_iff.mp hsplit with ⟨as', has', hpre⟩ | ⟨bs', hpost, hbs⟩
    · exact hbefore as' has' hpre
    · cases bs' with
      | nil => exact hbefore [] (by simp [hpost]) hbs.symm
      | cons y bs' =>
        rw [List.cons_append] at hbs
        obtain ⟨rfl, rfl⟩ := List.cons.inj hbs
        have hlist : pre ++ c :: post = (pre ++ c :: as) ++ x :: bs' := by simp [hpost]
        rw [hlist] at hnodup ⊢
        rw [turns_eq hnodup]
        simp only [List.filter_append, List.filter_cons_of_pos hc, List.filter_cons_of_pos hx,
          List.filter_nil, hnot, List.append_assoc, List.cons_append, List.nil_append]

end Turns

end Ring
