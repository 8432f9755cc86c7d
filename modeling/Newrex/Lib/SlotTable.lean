import Newrex.Lib.Search
import Mathlib.Data.Fintype.Card

/-!
# Tables with a fixed number of slots

A table of `n` slots, each free or with a pair of a key and a value. `put` replaces the value
of a key that has a slot. Another key takes the first free slot, and is dropped when there is
none. No pair is ever removed.

* `Current history t` is what holds of a table into which the pairs of `history` were put: a
  key has at most one slot, the value in it is the last one put for the key (`latest`), and
  only a full table lacks a key;
* `Current.putAll`: more pairs keep it;
* `Current.lookup_latest`: a lookup is never stale;
* `Current.lookup_isSome`: with no more keys than slots, every key is found;
* `Current.lookup_put_putAll`: a key is found from then on when there was `Room` for it.
-/

namespace SlotTable

/-- The slots. `none` is a free one. -/
abbrev Table (κ ν : Type) (n : Nat) := Fin n → Option (κ × ν)

variable {κ ν : Type} {n : Nat}

def keyAt (t : Table κ ν n) (i : Fin n) : Option κ := (t i).map Prod.fst

theorem keyAt_eq_some {t : Table κ ν n} {i : Fin n} {k : κ} :
    keyAt t i = some k ↔ ∃ v, t i = some (k, v) := by
  rw [keyAt, Option.map_eq_some_iff]
  constructor
  · rintro ⟨⟨_, v⟩, hi, rfl⟩
    exact ⟨v, hi⟩
  · rintro ⟨v, hi⟩
    exact ⟨(k, v), hi, rfl⟩

variable [DecidableEq κ]

/-- The first slot with the key. -/
def slotOf (t : Table κ ν n) (k : κ) : Option (Fin n) :=
  (List.finRange n).find? fun i => decide (keyAt t i = some k)

def freeSlot (t : Table κ ν n) : Option (Fin n) := (List.finRange n).find? fun i => (t i).isNone

def lookup (t : Table κ ν n) (k : κ) : Option ν := ((slotOf t k).bind t).map Prod.snd

def put (t : Table κ ν n) (k : κ) (v : ν) : Table κ ν n :=
  match slotOf t k with
  | some i => Function.update t i (some (k, v))
  | none =>
    match freeSlot t with
    | some i => Function.update t i (some (k, v))
    | none => t

def putAll (t : Table κ ν n) (entries : List (κ × ν)) : Table κ ν n :=
  entries.foldl (fun t e => put t e.1 e.2) t

/-- The value of the last pair with the key. -/
def latest (history : List (κ × ν)) (k : κ) : Option ν :=
  ((history.filter fun e => e.1 = k).getLast?).map Prod.snd

variable {t : Table κ ν n} {history : List (κ × ν)} {k : κ} {v : ν}

/-! ## The last value of a key -/

theorem latest_append_same : latest (history ++ [(k, v)]) k = some v := by
  simp [latest]

theorem latest_append_of_ne {k' : κ} (h : k' ≠ k) :
    latest (history ++ [(k', v)]) k = latest history k := by
  simp [latest, h]

theorem mem_of_latest (h : latest history k = some v) : (k, v) ∈ history := by
  obtain ⟨e, hlast, rfl⟩ := Option.map_eq_some_iff.mp h
  obtain ⟨hmem, hkey⟩ := List.mem_filter.mp (List.mem_of_getLast? hlast)
  obtain rfl := of_decide_eq_true hkey
  exact hmem

/-! ## Lookup -/

theorem slotOf_eq_none : slotOf t k = none ↔ ∀ i, keyAt t i ≠ some k := by
  simp only [slotOf, Search.find_finRange_eq_none, decide_eq_false_iff_not, ne_eq]

theorem keyAt_of_slotOf {i : Fin n} (h : slotOf t k = some i) : keyAt t i = some k :=
  of_decide_eq_true (Search.find_finRange_eq_some.mp h).1

theorem exists_of_lookup (h : lookup t k = some v) : ∃ i, t i = some (k, v) := by
  obtain ⟨e, hbind, rfl⟩ := Option.map_eq_some_iff.mp h
  obtain ⟨i, hslot, hi⟩ := Option.bind_eq_some_iff.mp hbind
  obtain ⟨w, hw⟩ := keyAt_eq_some.mp (keyAt_of_slotOf hslot)
  obtain rfl : e = (k, w) := Option.some.inj (hi.symm.trans hw)
  exact ⟨i, hw⟩

theorem lookup_isSome {i : Fin n} (h : keyAt t i = some k) : (lookup t k).isSome := by
  cases hslot : slotOf t k with
  | none => exact absurd h (slotOf_eq_none.mp hslot i)
  | some j =>
    obtain ⟨w, hj⟩ := keyAt_eq_some.mp (keyAt_of_slotOf hslot)
    rw [lookup, hslot, Option.bind_some, hj]
    rfl

/-! ## One pair -/

omit [DecidableEq κ] in
theorem keyAt_update_same (i : Fin n) :
    keyAt (Function.update t i (some (k, v))) i = some k := by
  rw [keyAt, Function.update_self]
  rfl

omit [DecidableEq κ] in
theorem keyAt_update_of_ne {i j : Fin n} (h : j ≠ i) :
    keyAt (Function.update t i (some (k, v))) j = keyAt t j := by
  rw [keyAt, Function.update_of_ne h]
  rfl

/-- No two slots have the same key. -/
def Distinct (t : Table κ ν n) : Prop :=
  ∀ i j k, keyAt t i = some k → keyAt t j = some k → i = j

/-- What `put` does to a table of distinct keys: the pair goes to a slot of its own, or every
slot has another key. -/
inductive PutEffect (t : Table κ ν n) (k : κ) (v : ν) : Table κ ν n → Prop
  | placed (i : Fin n) (hown : ∀ j, keyAt t j = some k → j = i)
      (hfree : ∀ k', keyAt t i = some k' → k' = k) :
      PutEffect t k v (Function.update t i (some (k, v)))
  | dropped (hnew : ∀ j, keyAt t j ≠ some k) (hfull : ∀ j, t j ≠ none) : PutEffect t k v t

theorem put_effect (h : Distinct t) (k : κ) (v : ν) : PutEffect t k v (put t k v) := by
  cases hslot : slotOf t k with
  | some i =>
    rw [put, hslot]
    have hi : keyAt t i = some k := keyAt_of_slotOf hslot
    exact .placed i (fun j hj => h j i k hj hi) fun k' hk' => Option.some.inj (hk'.symm.trans hi)
  | none =>
    have hnew : ∀ j, keyAt t j ≠ some k := slotOf_eq_none.mp hslot
    cases hfree : freeSlot t with
    | some i =>
      rw [put, hslot]
      simp only [hfree]
      have hi : t i = none := Option.isNone_iff_eq_none.mp (Search.find_finRange_eq_some.mp hfree).1
      refine .placed i (fun j hj => absurd hj (hnew j)) fun k' hk' => ?_
      rw [keyAt, hi] at hk'
      cases hk'
    | none =>
      rw [put, hslot]
      simp only [hfree]
      refine .dropped hnew fun j hj => ?_
      have hj' := Search.find_finRange_eq_none.mp hfree j
      rw [hj] at hj'
      cases hj'

/-- A pair with the key finds a slot: its own or a free one. -/
def Room (t : Table κ ν n) (k : κ) : Prop := (∃ i, keyAt t i = some k) ∨ ∃ i, t i = none

/-- A key keeps its slot. -/
theorem keyAt_put (h : Distinct t) {i : Fin n} {k' : κ} (hi : keyAt t i = some k') :
    keyAt (put t k v) i = some k' := by
  have heffect := put_effect h k v
  generalize put t k v = t' at heffect ⊢
  cases heffect with
  | placed j hown hfree =>
    rcases eq_or_ne i j with rfl | hij
    · rw [keyAt_update_same, hfree k' hi]
    · exact (keyAt_update_of_ne hij).trans hi
  | dropped hnew hfull => exact hi

/-- The new pair is found if there was room for it. -/
theorem lookup_put_iff (h : Distinct t) : lookup (put t k v) k = some v ↔ Room t k := by
  have heffect := put_effect h k v
  generalize put t k v = t' at heffect ⊢
  cases heffect with
  | placed i hown hfree =>
    have hroom : Room t k := by
      cases hi : t i with
      | none => exact Or.inr ⟨i, hi⟩
      | some e =>
        have hkey : keyAt t i = some e.1 := keyAt_eq_some.mpr ⟨e.2, hi⟩
        exact Or.inl ⟨i, hfree e.1 hkey ▸ hkey⟩
    refine iff_of_true ?_ hroom
    have hself : keyAt (Function.update t i (some (k, v))) i = some k := keyAt_update_same i
    obtain ⟨w, hw⟩ := Option.isSome_iff_exists.mp (lookup_isSome hself)
    obtain ⟨j, hj⟩ := exists_of_lookup hw
    rcases eq_or_ne j i with rfl | hji
    · rw [Function.update_self] at hj
      cases hj
      exact hw
    · rw [Function.update_of_ne hji] at hj
      exact absurd (hown j (keyAt_eq_some.mpr ⟨w, hj⟩)) hji
  | dropped hnew hfull =>
    refine iff_of_false (fun hk => ?_) ?_
    · obtain ⟨i, hi⟩ := exists_of_lookup hk
      exact hnew i (keyAt_eq_some.mpr ⟨v, hi⟩)
    · rintro (⟨i, hi⟩ | ⟨i, hi⟩)
      · exact hnew i hi
      · exact hfull i hi

/-- Where there is no room for a key, there will never be. -/
theorem not_room_put (h : Distinct t) (hk : ¬ Room t k) (k' : κ) (v : ν) :
    ¬ Room (put t k' v) k := by
  have hnew : ∀ i, keyAt t i ≠ some k := fun i hi => hk (Or.inl ⟨i, hi⟩)
  have hfull : ∀ i, t i ≠ none := fun i hi => hk (Or.inr ⟨i, hi⟩)
  have hkeys : ∀ i, ∃ k, keyAt t i = some k := fun i => by
    obtain ⟨e, he⟩ := Option.ne_none_iff_exists'.mp (hfull i)
    exact ⟨e.1, keyAt_eq_some.mpr ⟨e.2, he⟩⟩
  rintro (⟨i, hi⟩ | ⟨i, hi⟩)
  · obtain ⟨k'', hk''⟩ := hkeys i
    rw [keyAt_put h hk''] at hi
    exact hnew i (hi ▸ hk'')
  · obtain ⟨k'', hk''⟩ := hkeys i
    have hi' := keyAt_put (v := v) (k := k') h hk''
    rw [keyAt, hi] at hi'
    cases hi'

/-! ## A history of pairs -/

/-- The table after the pairs of `history`. -/
structure Current (history : List (κ × ν)) (t : Table κ ν n) : Prop where
  distinct : Distinct t
  newest : ∀ i k v, t i = some (k, v) → latest history k = some v
  known : ∀ k, k ∈ history.map Prod.fst → (∃ i, keyAt t i = some k) ∨ ∀ i, t i ≠ none

namespace Current

theorem nil (h : ∀ i, t i = none) : Current [] t where
  distinct := fun i j k hi hj => by
    rw [keyAt, h i] at hi
    cases hi
  newest := fun i k v hi => by
    rw [h i] at hi
    cases hi
  known := fun k hk => absurd hk List.not_mem_nil

/-- The pair goes to a slot, when no other slot has its key and no other key has the slot. -/
theorem placed (h : Current history t) {i : Fin n} (hown : ∀ j, keyAt t j = some k → j = i)
    (hfree : ∀ k', keyAt t i = some k' → k' = k) :
    Current (history ++ [(k, v)]) (Function.update t i (some (k, v))) where
  distinct := by
    intro a b k' ha hb
    rcases eq_or_ne a i with rfl | hai
    · rcases eq_or_ne b a with rfl | hba
      · rfl
      · rw [keyAt_update_same] at ha
        rw [keyAt_update_of_ne hba] at hb
        cases ha
        exact (hown b hb).symm
    · rw [keyAt_update_of_ne hai] at ha
      rcases eq_or_ne b i with rfl | hbi
      · rw [keyAt_update_same] at hb
        cases hb
        exact hown a ha
      · rw [keyAt_update_of_ne hbi] at hb
        exact h.distinct a b k' ha hb
  newest := by
    intro j k' w hj
    rcases eq_or_ne j i with rfl | hji
    · rw [Function.update_self] at hj
      cases hj
      exact latest_append_same
    · rw [Function.update_of_ne hji] at hj
      have hne : k ≠ k' := fun heq => hji (hown j (keyAt_eq_some.mpr ⟨w, heq ▸ hj⟩))
      rw [latest_append_of_ne hne]
      exact h.newest j k' w hj
  known := by
    intro k' hk'
    rcases eq_or_ne k' k with rfl | hne
    · exact Or.inl ⟨i, keyAt_update_same i⟩
    · have hold : k' ∈ history.map Prod.fst := by
        simpa [hne] using hk'
      rcases h.known k' hold with ⟨j, hj⟩ | hfull
      · have hji : j ≠ i := fun heq => hne (hfree k' (heq ▸ hj))
        exact Or.inl ⟨j, (keyAt_update_of_ne hji).trans hj⟩
      · refine Or.inr fun j => ?_
        rcases eq_or_ne j i with rfl | hji
        · rw [Function.update_self]
          exact Option.some_ne_none _
        · rw [Function.update_of_ne hji]
          exact hfull j

/-- The table stays as it is. -/
theorem dropped (h : Current history t) (hnew : ∀ j, keyAt t j ≠ some k)
    (hfull : ∀ j, t j ≠ none) : Current (history ++ [(k, v)]) t where
  distinct := h.distinct
  newest := by
    intro j k' w hj
    have hne : k ≠ k' := fun heq => hnew j (keyAt_eq_some.mpr ⟨w, heq ▸ hj⟩)
    rw [latest_append_of_ne hne]
    exact h.newest j k' w hj
  known := fun _ _ => Or.inr hfull

theorem put (h : Current history t) (k : κ) (v : ν) :
    Current (history ++ [(k, v)]) (put t k v) := by
  have heffect := put_effect h.distinct k v
  generalize SlotTable.put t k v = t' at heffect ⊢
  cases heffect with
  | placed i hown hfree => exact h.placed hown hfree
  | dropped hnew hfull => exact h.dropped hnew hfull

theorem putAll (h : Current history t) (entries : List (κ × ν)) :
    Current (history ++ entries) (putAll t entries) := by
  induction entries generalizing history t with
  | nil => rwa [List.append_nil]
  | cons e entries ih =>
    have hrest := ih (h.put e.1 e.2)
    rwa [List.append_assoc] at hrest

theorem keyAt_putAll (h : Current history t) {entries : List (κ × ν)} {i : Fin n}
    (hi : keyAt t i = some k) : keyAt (SlotTable.putAll t entries) i = some k := by
  induction entries generalizing history t with
  | nil => exact hi
  | cons e entries ih => exact ih (h.put e.1 e.2) (keyAt_put h.distinct hi)

theorem not_room_putAll (h : Current history t) (entries : List (κ × ν)) (hk : ¬ Room t k) :
    ¬ Room (SlotTable.putAll t entries) k := by
  induction entries generalizing history t with
  | nil => exact hk
  | cons e entries ih => exact ih (h.put e.1 e.2) (not_room_put h.distinct hk e.1 e.2)

/-- A key that was put is found ever after, if there was room for it. -/
theorem lookup_put_putAll (h : Current history t) (v : ν) (entries : List (κ × ν)) :
    (lookup (SlotTable.putAll t ((k, v) :: entries)) k).isSome ↔ Room t k := by
  constructor
  · intro hsome
    by_contra hk
    obtain ⟨w, hw⟩ := Option.isSome_iff_exists.mp hsome
    obtain ⟨i, hi⟩ := exists_of_lookup hw
    exact h.not_room_putAll _ hk (Or.inl ⟨i, keyAt_eq_some.mpr ⟨w, hi⟩⟩)
  · intro hroom
    obtain ⟨i, hi⟩ := exists_of_lookup ((lookup_put_iff h.distinct (v := v)).mpr hroom)
    have hkept : keyAt (SlotTable.putAll (SlotTable.put t k v) entries) i = some k :=
      (h.put k v).keyAt_putAll (keyAt_eq_some.mpr ⟨v, hi⟩)
    exact SlotTable.lookup_isSome hkept

theorem lookup_latest (h : Current history t) (hk : lookup t k = some v) :
    latest history k = some v := by
  obtain ⟨i, hi⟩ := exists_of_lookup hk
  exact h.newest i k v hi

/-- The keys of a full table are `n` keys of the history. With no more keys than that, they
are all of them. -/
theorem lookup_isSome (h : Current history t) (hcard : (history.map Prod.fst).toFinset.card ≤ n)
    (hk : k ∈ history.map Prod.fst) : (lookup t k).isSome := by
  rcases h.known k hk with ⟨i, hi⟩ | hfull
  · exact SlotTable.lookup_isSome hi
  · have hinj : Function.Injective (keyAt t) := by
      intro i j hij
      obtain ⟨e, hi⟩ := Option.ne_none_iff_exists'.mp (hfull i)
      have hkey : keyAt t i = some e.1 := by rw [keyAt, hi]; rfl
      exact h.distinct i j e.1 hkey (hij ▸ hkey)
    have hsub : Finset.univ.image (keyAt t) ⊆ (history.map Prod.fst).toFinset.image some := by
      intro o ho
      obtain ⟨i, -, rfl⟩ := Finset.mem_image.mp ho
      obtain ⟨e, hi⟩ := Option.ne_none_iff_exists'.mp (hfull i)
      have hmem : e ∈ history := mem_of_latest (h.newest i e.1 e.2 hi)
      have hkey : keyAt t i = some e.1 := by rw [keyAt, hi]; rfl
      rw [hkey]
      exact Finset.mem_image_of_mem _ (List.mem_toFinset.mpr (List.mem_map_of_mem hmem))
    have hle : ((history.map Prod.fst).toFinset.image some).card ≤
        (Finset.univ.image (keyAt t)).card := by
      rw [Finset.card_image_of_injective _ (Option.some_injective κ),
        Finset.card_image_of_injective _ hinj, Finset.card_univ, Fintype.card_fin]
      exact hcard
    have hmem : some k ∈ Finset.univ.image (keyAt t) := by
      rw [Finset.eq_of_subset_of_card_le hsub hle]
      exact Finset.mem_image_of_mem _ (List.mem_toFinset.mpr hk)
    obtain ⟨i, -, hi⟩ := Finset.mem_image.mp hmem
    exact SlotTable.lookup_isSome hi

end Current

end SlotTable
