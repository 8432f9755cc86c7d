import Mathlib.Data.List.Chain

/-!
# Memory as a list of adjacent blocks

A region of memory that is cut into blocks without gaps: each block has a header
of `hdr` bytes and a payload of `size` bytes, and is free or used. The position
of a block is given by the blocks in front of it, so that a list of blocks tiles
the region by construction.

* `allocate` takes the first free block that is large enough and splits it when
  more than `slack` payload bytes would be left over;
* `merge` joins neighbouring free blocks;
* `At hdr bs o b`: block `b` starts at offset `o`. Blocks at different offsets are
  disjoint (`At.apart`), and both operations leave used blocks where they are;
* a list without free neighbours is determined by its used blocks (`Coalesced.eq_of_used`).
-/

namespace BlockList

/-- A block: the size of its payload and whether it is free. -/
structure Block where
  size : Nat
  free : Bool
deriving DecidableEq, Repr

/-- The bytes that the blocks cover. -/
def extent (hdr : Nat) : List Block → Nat
  | [] => 0
  | b :: bs => hdr + b.size + extent hdr bs

/-- No two neighbours are both free. -/
def Coalesced (bs : List Block) : Prop := bs.IsChain fun b c => ¬ (b.free = true ∧ c.free = true)

/-- Block `b` of the list starts at offset `o`. -/
def At (hdr : Nat) (bs : List Block) (o : Nat) (b : Block) : Prop :=
  ∃ pre post, bs = pre ++ b :: post ∧ o = extent hdr pre

/-- Address `x` lies in a used block, header included, when the list starts at
address `a`. -/
def InUsed (hdr : Nat) : Nat → List Block → Nat → Prop
  | _, [], _ => False
  | a, b :: bs, x =>
    (b.free = false ∧ a ≤ x ∧ x < a + hdr + b.size) ∨ InUsed hdr (a + hdr + b.size) bs x

/-- The used part of a free block that is allocated, and the rest if it is large
enough to be a block. -/
def place (hdr slack n : Nat) (b : Block) : List Block :=
  if b.size > n + hdr + slack then [⟨n, false⟩, ⟨b.size - n - hdr, true⟩] else [⟨b.size, false⟩]

/-- First fit: the offset of the block taken and the new list. -/
def allocate (hdr slack n : Nat) : List Block → Option (Nat × List Block)
  | [] => none
  | b :: bs =>
    if b.free = true ∧ n ≤ b.size then some (0, place hdr slack n b ++ bs)
    else (allocate hdr slack n bs).map fun (o, bs') => (hdr + b.size + o, b :: bs')

/-- The blocks after a request for `n` bytes, which changes nothing when no block fits. -/
def serve (hdr slack n : Nat) (bs : List Block) : List Block :=
  (allocate hdr slack n bs).elim bs Prod.snd

/-- Each of the requests, one after the other, finds a block. -/
def servesAll (hdr slack : Nat) : List Nat → List Block → Bool
  | [], _ => true
  | n :: ns, bs => (allocate hdr slack n bs).isSome && servesAll hdr slack ns (serve hdr slack n bs)

/-- Joins `b` with the free blocks behind it when it is free, and so on. -/
def mergeFrom (hdr : Nat) (b : Block) : List Block → List Block
  | [] => [b]
  | c :: rest =>
    if b.free = true ∧ c.free = true then mergeFrom hdr ⟨b.size + (hdr + c.size), true⟩ rest
    else b :: mergeFrom hdr c rest

/-- Joins neighbouring free blocks. -/
def merge (hdr : Nat) : List Block → List Block
  | [] => []
  | b :: bs => mergeFrom hdr b bs

variable {hdr slack n o o' : Nat} {b c : Block} {bs pre post : List Block}

theorem extent_append (as bs : List Block) :
    extent hdr (as ++ bs) = extent hdr as + extent hdr bs := by
  induction as with
  | nil => exact (Nat.zero_add _).symm
  | cons a as ih => simp only [List.cons_append, extent, ih, Nat.add_assoc]

/-! ## Positions -/

theorem At.lt (h : At hdr bs o b) : o + hdr + b.size ≤ extent hdr bs := by
  obtain ⟨pre, post, rfl, rfl⟩ := h
  rw [extent_append, extent]
  omega

/-- A block ends where the next one starts, or before. -/
theorem end_le_of_append {pre as post post' : List Block} (heq : b :: post = as ++ c :: post')
    (hne : extent hdr pre ≠ extent hdr (pre ++ as)) :
    extent hdr pre + hdr + b.size ≤ extent hdr (pre ++ as) := by
  cases as with
  | nil => simp at hne
  | cons d as =>
    rw [List.cons_append, List.cons.injEq] at heq
    rw [heq.1, extent_append, extent]
    omega

/-- Blocks at different offsets do not overlap, headers included. -/
theorem At.apart (h : At hdr bs o b) (h' : At hdr bs o' c) (hne : o ≠ o') :
    o + hdr + b.size ≤ o' ∨ o' + hdr + c.size ≤ o := by
  obtain ⟨pre, post, rfl, rfl⟩ := h
  obtain ⟨pre', post', heq, rfl⟩ := h'
  rcases List.append_eq_append_iff.mp heq with ⟨as, rfl, hrest⟩ | ⟨as, rfl, hrest⟩
  · exact Or.inl (end_le_of_append hrest hne)
  · exact Or.inr (end_le_of_append hrest hne.symm)

/-- With headers of at least one byte, an offset determines its block. -/
theorem At.unique (hhdr : 0 < hdr) (h : At hdr bs o b) (h' : At hdr bs o c) : b = c := by
  obtain ⟨pre, post, rfl, rfl⟩ := h
  obtain ⟨pre', post', heq, ho⟩ := h'
  rcases List.append_eq_append_iff.mp heq with ⟨as, rfl, hrest⟩ | ⟨as, rfl, hrest⟩
  · cases as with
    | nil => simpa using (List.cons.inj hrest).1
    | cons d as =>
      rw [extent_append, extent] at ho
      omega
  · cases as with
    | nil => simpa using (List.cons.inj hrest).1.symm
    | cons d as =>
      rw [extent_append, extent] at ho
      omega

theorem InUsed.le {a x : Nat} (h : InUsed hdr a bs x) : a ≤ x := by
  induction bs generalizing a with
  | nil => exact h.elim
  | cons b bs ih =>
    rcases h with ⟨_, hle, _⟩ | hrest
    · exact hle
    · have := ih hrest
      omega

/-- The bytes of a used block. -/
theorem At.inUsed (h : At hdr bs o b) (hused : b.free = false) {a x : Nat} (hlow : a + o ≤ x)
    (hhigh : x < a + o + hdr + b.size) : InUsed hdr a bs x := by
  obtain ⟨pre, post, rfl, rfl⟩ := h
  induction pre generalizing a with
  | nil => exact Or.inl ⟨hused, hlow, hhigh⟩
  | cons c pre ih =>
    rw [extent] at hlow hhigh
    exact Or.inr (ih (by omega) (by omega))

/-- A block outside a part of the list stays when that part is replaced by blocks
that cover the same bytes. -/
theorem At.replace {mid : List Block} (h : At hdr (pre ++ mid ++ post) o b)
    (mid' : List Block) (hext : extent hdr mid' = extent hdr mid)
    (hout : o + hdr + b.size ≤ extent hdr pre ∨ extent hdr pre + extent hdr mid ≤ o)
    (hhdr : 0 < hdr) : At hdr (pre ++ mid' ++ post) o b := by
  obtain ⟨pre', post', heq, rfl⟩ := h
  rcases hout with hout | hout
  · -- the block lies in `pre`
    rw [List.append_assoc] at heq
    rcases List.append_eq_append_iff.mp heq with ⟨as, rfl, hrest⟩ | ⟨as, rfl, hrest⟩
    · rw [extent_append] at hout
      omega
    · cases as with
      | nil =>
        rw [List.append_nil] at hout
        omega
      | cons d as =>
        rw [List.cons_append, List.cons.injEq] at hrest
        rw [hrest.1]
        exact ⟨pre', as ++ mid' ++ post, by simp, rfl⟩
  · -- the block lies in `post`
    rcases List.append_eq_append_iff.mp heq with ⟨as, rfl, hrest⟩ | ⟨as, heq', hrest⟩
    · refine ⟨pre ++ mid' ++ as, post', by rw [hrest, ← List.append_assoc], ?_⟩
      simp only [extent_append, hext]
    · have hlen : extent hdr pre + extent hdr mid = extent hdr pre' + extent hdr as := by
        rw [← extent_append, ← extent_append, heq']
      cases as with
      | nil =>
        rw [List.nil_append] at hrest
        refine ⟨pre ++ mid', post', by rw [← hrest], ?_⟩
        rw [extent] at hlen
        rw [extent_append, hext]
        omega
      | cons d as =>
        rw [extent] at hlen
        omega

/-- A block of a list is its first one, or one of the rest. -/
theorem at_cons : At hdr (b :: bs) o c ↔
    o = 0 ∧ c = b ∨ ∃ o', o = hdr + b.size + o' ∧ At hdr bs o' c := by
  constructor
  · rintro ⟨pre, post, heq, rfl⟩
    cases pre with
    | nil =>
      rw [List.nil_append, List.cons.injEq] at heq
      exact Or.inl ⟨rfl, heq.1.symm⟩
    | cons d pre =>
      rw [List.cons_append, List.cons.injEq] at heq
      obtain ⟨rfl, rfl⟩ := heq
      exact Or.inr ⟨_, rfl, pre, post, rfl, rfl⟩
  · rintro (⟨rfl, rfl⟩ | ⟨o', rfl, pre, post, rfl, rfl⟩)
    · exact ⟨[], bs, rfl, rfl⟩
    · exact ⟨b :: pre, post, rfl, rfl⟩

theorem at_nil : ¬ At hdr [] o c := by
  rintro ⟨pre, post, heq, _⟩
  exact absurd heq.symm (List.append_ne_nil_of_right_ne_nil _ (List.cons_ne_nil _ _))

theorem at_append {as : List Block} : At hdr (as ++ bs) o c ↔
    At hdr as o c ∨ ∃ o', o = extent hdr as + o' ∧ At hdr bs o' c := by
  induction as generalizing o with
  | nil => simp [at_nil, extent]
  | cons a as ih =>
    rw [List.cons_append, at_cons, at_cons, or_assoc]
    refine or_congr_right ?_
    simp only [ih, extent]
    constructor
    · rintro ⟨o', rfl, hleft | ⟨o'', rfl, hright⟩⟩
      · exact Or.inl ⟨o', rfl, hleft⟩
      · exact Or.inr ⟨o'', by omega, hright⟩
    · rintro (⟨o', rfl, hleft⟩ | ⟨o'', rfl, hright⟩)
      · exact ⟨o', rfl, Or.inl hleft⟩
      · exact ⟨extent hdr as + o'', by omega, Or.inr ⟨o'', rfl, hright⟩⟩

theorem at_singleton : At hdr [b] o c ↔ o = 0 ∧ c = b := by
  rw [at_cons]
  exact or_iff_left fun ⟨_, _, h⟩ => at_nil h

/-- A block is made free: of the used blocks, it is gone. -/
theorem at_setFree (hhdr : 0 < hdr) (hused : c.free = false) :
    At hdr (pre ++ [⟨b.size, true⟩] ++ post) o c ↔
      At hdr (pre ++ [b] ++ post) o c ∧ o ≠ extent hdr pre := by
  have hnot : ∀ o', ¬ At hdr [⟨b.size, true⟩] o' c := by
    intro o' h
    rw [(at_singleton.mp h).2] at hused
    cases hused
  simp only [at_append, hnot, and_false, exists_false, or_false, at_singleton, extent_append,
    extent]
  constructor
  · rintro (hpre | ⟨o', rfl, hpost⟩)
    · have hlt := hpre.lt
      exact ⟨Or.inl (Or.inl hpre), by omega⟩
    · exact ⟨Or.inr ⟨o', rfl, hpost⟩, by omega⟩
  · rintro ⟨(hpre | ⟨o', rfl, rfl, _⟩) | hpost, hne⟩
    · exact Or.inl hpre
    · exact absurd rfl hne
    · exact Or.inr hpost

/-! ## Allocation -/

theorem extent_place : extent hdr (place hdr slack n b) = hdr + b.size := by
  unfold place
  split
  · simp only [extent]
    omega
  · simp only [extent]
    omega

theorem place_head (hdr slack : Nat) (hn : n ≤ b.size) :
    ∃ size rest, place hdr slack n b = ⟨size, false⟩ :: rest ∧ n ≤ size := by
  unfold place
  split
  · exact ⟨n, _, rfl, Nat.le_refl n⟩
  · exact ⟨b.size, [], rfl, hn⟩

theorem allocate_eq_none :
    allocate hdr slack n bs = none ↔ ∀ b, b ∈ bs → ¬ (b.free = true ∧ n ≤ b.size) := by
  induction bs with
  | nil => simp [allocate]
  | cons b bs ih =>
    rw [allocate]
    split
    · next hfit =>
      exact ⟨fun h => absurd h (by simp), fun h => absurd hfit (h b List.mem_cons_self)⟩
    · next hfit =>
      rw [Option.map_eq_none_iff, ih]
      constructor
      · intro h c hc
        rcases List.mem_cons.mp hc with rfl | hc
        · exact hfit
        · exact h c hc
      · intro h c hc
        exact h c (List.mem_cons_of_mem _ hc)

/-- The block taken is a free one that is large enough. -/
theorem allocate_eq_some {bs' : List Block} (h : allocate hdr slack n bs = some (o, bs')) :
    ∃ pre b post, bs = pre ++ [b] ++ post ∧ b.free = true ∧ n ≤ b.size ∧ o = extent hdr pre ∧
      bs' = pre ++ place hdr slack n b ++ post := by
  induction bs generalizing o bs' with
  | nil => exact absurd h (by simp [allocate])
  | cons a bs ih =>
    rw [allocate] at h
    split at h
    · next hfit =>
      cases h
      exact ⟨[], a, bs, rfl, hfit.1, hfit.2, rfl, rfl⟩
    · obtain ⟨⟨o1, bs1⟩, h1, heq⟩ := Option.map_eq_some_iff.mp h
      cases heq
      obtain ⟨pre, b, post, rfl, hfree, hn, rfl, rfl⟩ := ih h1
      exact ⟨a :: pre, b, post, rfl, hfree, hn, rfl, rfl⟩

/-- A block that is allocated: of the used blocks, it comes up. -/
theorem at_allocate {bs' : List Block} (hhdr : 0 < hdr)
    (h : allocate hdr slack n bs = some (o, bs')) :
    (∀ c, At hdr bs o c → c.free = true) ∧
      ∃ b, ∀ o' c, c.free = false → (At hdr bs' o' c ↔ At hdr bs o' c ∨ o' = o ∧ c = b) := by
  obtain ⟨pre, b, post, rfl, hfree, _, rfl, rfl⟩ := allocate_eq_some h
  constructor
  · intro c hc
    have hb : At hdr (pre ++ [b] ++ post) (extent hdr pre) b := ⟨pre, post, by simp, rfl⟩
    rw [hc.unique hhdr hb]
    exact hfree
  · -- the rest, if there is one, is free
    have hplace : ∃ b', ∀ o' c, c.free = false → (At hdr (place hdr slack n b) o' c ↔
        o' = 0 ∧ c = b') := by
      unfold place
      split
      · refine ⟨⟨n, false⟩, fun o' c hc => ?_⟩
        rw [at_cons]
        refine or_iff_left ?_
        rintro ⟨o'', _, hrest⟩
        rw [(at_singleton.mp hrest).2] at hc
        cases hc
      · exact ⟨⟨b.size, false⟩, fun o' c _ => at_singleton⟩
    obtain ⟨b', hb'⟩ := hplace
    refine ⟨b', fun o' c hc => ?_⟩
    have hnot : ∀ o'', ¬ (o'' = 0 ∧ c = b) := by
      rintro o'' ⟨_, rfl⟩
      rw [hfree] at hc
      cases hc
    have hext : extent hdr [b] = hdr + b.size := rfl
    simp only [at_append, hb' _ _ hc, at_singleton, hnot, and_false, exists_false, or_false,
      extent_append, extent_place, hext]
    constructor
    · rintro ((hpre | ⟨_, rfl, rfl, rfl⟩) | hpost)
      · exact Or.inl (Or.inl hpre)
      · exact Or.inr ⟨rfl, rfl⟩
      · exact Or.inl (Or.inr hpost)
    · rintro ((hpre | hpost) | ⟨rfl, rfl⟩)
      · exact Or.inl (Or.inl hpre)
      · exact Or.inr hpost
      · exact Or.inl (Or.inr ⟨0, rfl, rfl, rfl⟩)

/-- A free block between used ones can be replaced by a used one, with or without a
free rest behind it. -/
theorem Coalesced.place (h : Coalesced (pre ++ [b] ++ post)) (hfree : b.free = true) :
    Coalesced (pre ++ place hdr slack n b ++ post) := by
  unfold Coalesced at *
  rw [List.append_assoc] at h ⊢
  obtain ⟨hpre, hrest, hjoin⟩ := List.isChain_append.mp h
  rw [List.singleton_append, List.isChain_cons] at hrest
  have hpost : ∀ c : Block, c ∈ post.head? → ¬ c.free = true := fun c hc hcf =>
    hrest.1 c hc ⟨hfree, hcf⟩
  refine List.isChain_append.mpr ⟨hpre, ?_, ?_⟩
  · unfold BlockList.place
    split
    · refine List.isChain_cons.mpr ⟨?_, List.isChain_cons.mpr ⟨?_, hrest.2⟩⟩
      · intro c hc
        simp
      · exact fun c hc hcf => hpost c hc hcf.2
    · refine List.isChain_cons.mpr ⟨?_, hrest.2⟩
      intro c hc
      simp
  · intro x hx y hy
    unfold BlockList.place at hy
    split at hy <;> simp at hy <;> subst hy <;> simp

/-! ## Merging -/

theorem extent_mergeFrom (b : Block) (bs : List Block) :
    extent hdr (mergeFrom hdr b bs) = hdr + b.size + extent hdr bs := by
  induction bs generalizing b with
  | nil => rfl
  | cons c bs ih =>
    rw [mergeFrom]
    split
    · rw [ih, extent]
      simp only
      omega
    · rw [extent, ih, extent]

theorem extent_merge (bs : List Block) : extent hdr (merge hdr bs) = extent hdr bs := by
  cases bs with
  | nil => rfl
  | cons b bs => exact extent_mergeFrom b bs

/-- The first block keeps its flag. -/
theorem mergeFrom_head (hdr : Nat) (b : Block) (bs : List Block) :
    ∃ size rest, mergeFrom hdr b bs = ⟨size, b.free⟩ :: rest := by
  induction bs generalizing b with
  | nil => exact ⟨b.size, [], rfl⟩
  | cons c bs ih =>
    rw [mergeFrom]
    split
    · next hboth =>
      obtain ⟨size, rest, heq⟩ := ih ⟨b.size + (hdr + c.size), true⟩
      exact ⟨size, rest, by rw [heq, hboth.1]⟩
    · exact ⟨b.size, _, rfl⟩

theorem coalesced_mergeFrom (b : Block) (bs : List Block) : Coalesced (mergeFrom hdr b bs) := by
  induction bs generalizing b with
  | nil => exact List.isChain_singleton b
  | cons c bs ih =>
    rw [mergeFrom]
    split
    · exact ih _
    · next hboth =>
      refine List.isChain_cons.mpr ⟨?_, ih c⟩
      intro d hd
      obtain ⟨size, rest, heq⟩ := mergeFrom_head hdr c bs
      rw [heq] at hd
      cases hd
      exact hboth

theorem coalesced_merge (bs : List Block) : Coalesced (merge hdr bs) := by
  cases bs with
  | nil => exact List.isChain_nil
  | cons b bs => exact coalesced_mergeFrom b bs

theorem mergeFrom_used (hused : b.free = false) (bs : List Block) :
    mergeFrom hdr b bs = b :: merge hdr bs := by
  cases bs with
  | nil => rfl
  | cons c bs => rw [mergeFrom, if_neg (by simp [hused]), merge]

theorem mergeFrom_cons_used (hused : c.free = false) (b : Block) (bs : List Block) :
    mergeFrom hdr b (c :: bs) = b :: mergeFrom hdr c bs := by
  rw [mergeFrom, if_neg (by simp [hused])]

/-- Nothing is merged across a used block. -/
theorem merge_append_used (pre post : List Block) (hused : b.free = false) :
    merge hdr (pre ++ b :: post) = merge hdr pre ++ b :: merge hdr post := by
  cases pre with
  | nil => exact mergeFrom_used hused post
  | cons a pre =>
    rw [List.cons_append, merge, merge]
    induction pre generalizing a with
    | nil =>
      rw [List.nil_append, mergeFrom_cons_used hused, mergeFrom_used hused]
      rfl
    | cons d pre ih =>
      rw [List.cons_append, mergeFrom, mergeFrom]
      split
      · exact ih _
      · rw [ih d]
        rfl

/-- Used blocks stay where they are. -/
theorem At.merge (h : At hdr bs o b) (hused : b.free = false) : At hdr (merge hdr bs) o b := by
  obtain ⟨pre, post, rfl, rfl⟩ := h
  exact ⟨_, _, merge_append_used pre post hused, (extent_merge pre).symm⟩

/-- And no other used blocks come up. -/
theorem at_mergeFrom (h : At hdr (mergeFrom hdr b bs) o c) (hused : c.free = false) :
    At hdr (b :: bs) o c := by
  induction bs generalizing b o with
  | nil => exact h
  | cons d bs ih =>
    rw [mergeFrom] at h
    split at h
    · rcases at_cons.mp (ih h) with ⟨_, rfl⟩ | ⟨o', rfl, hrest⟩
      · cases hused
      · refine at_cons.mpr (Or.inr ⟨hdr + d.size + o', ?_, at_cons.mpr (Or.inr ⟨o', rfl, hrest⟩)⟩)
        dsimp only
        omega
    · rcases at_cons.mp h with hfirst | ⟨o', rfl, hrest⟩
      · exact at_cons.mpr (Or.inl hfirst)
      · exact at_cons.mpr (Or.inr ⟨o', rfl, ih hrest⟩)

theorem at_merge_iff (hused : c.free = false) : At hdr (merge hdr bs) o c ↔ At hdr bs o c := by
  refine ⟨fun h => ?_, fun h => h.merge hused⟩
  cases bs with
  | nil => exact h
  | cons b bs => exact at_mergeFrom h hused

/-! ## Normal forms -/

/-- A free block at the start of a list ends where the first used block starts, or at the end of
the list. -/
theorem size_le_of_used {as : List Block} (hhdr : 0 < hdr) (hco : Coalesced (c :: bs))
    (hc : c.free = true) (hext : extent hdr (b :: as) = extent hdr (c :: bs))
    (hused : ∀ o d, d.free = false → At hdr (c :: bs) o d → At hdr (b :: as) o d) :
    b.size ≤ c.size := by
  cases bs with
  | nil =>
    simp only [extent] at hext
    omega
  | cons d bs =>
    have hd : d.free = false := by
      have hpair := (List.isChain_cons.mp hco).1 d rfl
      cases hdf : d.free with
      | false => rfl
      | true => exact absurd ⟨hc, hdf⟩ hpair
    have hat : At hdr (c :: d :: bs) (hdr + c.size) d := ⟨[c], bs, rfl, rfl⟩
    rcases at_cons.mp (hused _ d hd hat) with ⟨h0, _⟩ | ⟨o', heq, _⟩
    · omega
    · omega

/-- A list without free neighbours is determined by its extent and its used blocks: all that is
between two of them is one free block. -/
theorem Coalesced.eq_of_used {as : List Block} (hhdr : 0 < hdr) (ha : Coalesced as)
    (hb : Coalesced bs) (hext : extent hdr as = extent hdr bs)
    (hused : ∀ o c, c.free = false → (At hdr as o c ↔ At hdr bs o c)) : as = bs := by
  induction as generalizing bs with
  | nil =>
    cases bs with
    | nil => rfl
    | cons b bs =>
      simp only [extent] at hext
      omega
  | cons a as ih =>
    cases bs with
    | nil =>
      simp only [extent] at hext
      omega
    | cons b bs =>
      have hfirst : At hdr (a :: as) 0 a := ⟨[], as, rfl, rfl⟩
      have hfirst' : At hdr (b :: bs) 0 b := ⟨[], bs, rfl, rfl⟩
      have hab : a = b := by
        cases haf : a.free with
        | false => exact ((hused 0 a haf).mp hfirst).unique hhdr hfirst'
        | true =>
          cases hbf : b.free with
          | false => exact hfirst.unique hhdr ((hused 0 b hbf).mpr hfirst')
          | true =>
            have hle := size_le_of_used hhdr hb hbf hext fun o c hc => (hused o c hc).mpr
            have hge := size_le_of_used hhdr ha haf hext.symm fun o c hc => (hused o c hc).mp
            cases a
            cases b
            simp only [Block.mk.injEq]
            exact ⟨Nat.le_antisymm hle hge, haf.trans hbf.symm⟩
      subst hab
      have hrest : as = bs := by
        refine ih (List.isChain_cons.mp ha).2 (List.isChain_cons.mp hb).2 ?_ fun o c hc => ?_
        · simp only [extent] at hext
          omega
        · have hiff := hused (hdr + a.size + o) c hc
          have hpos : ¬ hdr + a.size + o = 0 := by omega
          simp only [at_cons, hpos, false_and, false_or, Nat.add_left_cancel_iff,
            exists_eq_left'] at hiff
          exact hiff
      rw [hrest]

/-! ## Totals -/

theorem length_mul_le_extent (bs : List Block) : bs.length * hdr ≤ extent hdr bs := by
  induction bs with
  | nil => exact Nat.le_of_eq (Nat.zero_mul _)
  | cons b bs ih =>
    rw [List.length_cons, Nat.succ_mul, extent]
    omega

/-- The sum of `w` over the blocks whose flag is `f`. -/
def sumOf (f : Bool) (w : Block → Nat) : List Block → Nat
  | [] => 0
  | b :: bs => (if b.free = f then w b else 0) + sumOf f w bs

/-- Payloads and headers make up the region. -/
theorem extent_eq (bs : List Block) :
    extent hdr bs = sumOf false Block.size bs + sumOf true Block.size bs +
      hdr * (sumOf false (fun _ => 1) bs + sumOf true (fun _ => 1) bs) := by
  induction bs with
  | nil => rfl
  | cons b bs ih =>
    simp only [extent, sumOf, ih]
    cases b.free <;> simp [Nat.mul_add] <;> omega

end BlockList
