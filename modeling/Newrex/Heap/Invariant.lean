import Newrex.Heap.Basic
import Newrex.Lib.BlockList
import Newrex.Lib.Packing
import Newrex.Lib.Transition

/-!
# The heap refines a list of blocks

`Chain` says that the headers in memory describe a list of adjacent blocks, and
`Chain.walk` is the induction for a loop that follows their pointers. The loops of
the allocator refine the operations on such lists:

* `kmallocLoop_eq` and `takeBlock_chain`: `kmalloc` is `BlockList.allocate`;
* `mergeLoop_chain`: the loop of `kfree` is `BlockList.mergeFrom`;
* `foldBlocks_eq`: the statistics are folds over the list.

`HeapInv` is the invariant of all runs, and `run_heap_integrity` the result.
-/

namespace Newrex

open LittleEndian BlockList

/-! ## Headers in memory -/

/-- The `next` pointer to the block at `a`: 0 behind the last block. -/
def link (e a : Nat) : Nat := if a = e then 0 else a

/-- The header at `a` describes the block `b` of a heap that ends at `e`. -/
def Header (h : Heap) (e a : Nat) (b : Block) : Prop :=
  h.size a = b.size ∧ (h.isFree a ≠ 0 ↔ b.free = true) ∧ h.next a = link e (a + 12 + b.size)

/-- The headers from address `a` on describe the blocks `bs` of a heap that ends at
address `e`. -/
def Chain (h : Heap) (e : Nat) : Nat → List Block → Prop
  | _, [] => True
  | a, b :: bs => Header h e a b ∧ Chain h e (a + 12 + b.size) bs

theorem Header.frame {h h' : Heap} {e a : Nat} {b : Block} (hh : Header h e a b)
    (hmem : ∀ x, a ≤ x → x < a + 12 → h'.mem x = h.mem x) : Header h' e a b := by
  have hword : ∀ off, off ≤ 8 → load h'.mem 4 (a + off) = load h.mem 4 (a + off) := by
    intro off hoff
    exact load_congr fun i hi => hmem _ (by omega) (by omega)
  obtain ⟨hsize, hfree, hnext⟩ := hh
  refine ⟨?_, ?_, ?_⟩
  · rw [← hsize]
    exact hword 0 (by omega)
  · rw [← hfree, Heap.isFree, Heap.isFree, hword 4 (by omega)]
  · rw [← hnext]
    exact hword 8 (by omega)

namespace Chain

variable {h h' : Heap} {e a : Nat} {b : Block} {bs pre mid post : List Block}

theorem append : Chain h e a (pre ++ post) ↔
    Chain h e a pre ∧ Chain h e (a + extent 12 pre) post := by
  induction pre generalizing a with
  | nil => simp [Chain, extent]
  | cons b pre ih =>
    have hadd : a + extent 12 (b :: pre) = a + 12 + b.size + extent 12 pre := by
      rw [extent]
      omega
    rw [List.cons_append, Chain, Chain, ih, hadd, ← and_assoc]

/-- The chain depends only on the bytes of its headers. -/
theorem frame_headers (hc : Chain h e a bs)
    (hmem : ∀ o b, At 12 bs o b → ∀ x, a + o ≤ x → x < a + o + 12 → h'.mem x = h.mem x) :
    Chain h' e a bs := by
  induction bs generalizing a with
  | nil => trivial
  | cons b bs ih =>
    refine ⟨hc.1.frame (hmem 0 b ⟨[], bs, rfl, rfl⟩), ih hc.2 fun o c hat x hlow hhigh => ?_⟩
    obtain ⟨pre, post, rfl, rfl⟩ := hat
    refine hmem (extent 12 (b :: pre)) c ⟨b :: pre, post, rfl, rfl⟩ x ?_ ?_
    · rw [extent]
      omega
    · rw [extent]
      omega

/-- The chain depends only on the bytes of its blocks. -/
theorem frame (hc : Chain h e a bs)
    (hmem : ∀ x, a ≤ x → x < a + extent 12 bs → h'.mem x = h.mem x) : Chain h' e a bs := by
  induction bs generalizing a with
  | nil => trivial
  | cons b bs ih =>
    rw [extent] at hmem
    exact ⟨hc.1.frame fun x h1 h2 => hmem x h1 (by omega),
      ih hc.2 fun x h1 h2 => hmem x (by omega) (by omega)⟩

/-- Part of the list is replaced, with changes in the bytes of that part only. -/
theorem replace {mid' : List Block} (hc : Chain h e a (pre ++ mid ++ post))
    (hext : extent 12 mid' = extent 12 mid)
    (hmem : ∀ x, x < a + extent 12 pre ∨ a + extent 12 pre + extent 12 mid ≤ x →
      h'.mem x = h.mem x)
    (hmid : Chain h' e (a + extent 12 pre) mid') : Chain h' e a (pre ++ mid' ++ post) := by
  rw [append, append, extent_append] at hc ⊢
  obtain ⟨⟨hpre, _⟩, hpost⟩ := hc
  rw [hext]
  refine ⟨⟨hpre.frame fun x _ hx => hmem x (Or.inl hx), hmid⟩, hpost.frame fun x hx _ => ?_⟩
  exact hmem x (Or.inr (by omega))

end Chain

/-! ## Allocation -/

theorem load_store_word {m : Nat → UInt8} {off v : Nat} (hv : v < 2 ^ 32) :
    load (store m 4 off v) 4 off = v := by
  rw [load_store_same]
  exact Nat.mod_eq_of_lt hv

theorem add32_of_lt {a b : Nat} (h : a + b < 2 ^ 32) : add32 a b = a + b := Nat.mod_eq_of_lt h

theorem sub32_of_le {a b : Nat} (ha : a < 2 ^ 32) (h : b ≤ a) : sub32 a b = a - b := by
  unfold sub32
  omega

theorem link_self (e : Nat) : link e e = 0 := if_pos rfl

theorem link_of_lt {e a : Nat} (h : a < e) : link e a = a := if_neg (Nat.ne_of_lt h)

theorem link_lt {e a : Nat} (ha : a ≤ e) (he : e ≤ 2 ^ 32) : link e a < 2 ^ 32 := by
  unfold link
  split <;> omega

/-- Taking the block at `a` turns it into the blocks of `place`, and touches no byte
outside of it. -/
theorem takeBlock_chain {h : Heap} {e a n : Nat} {b : Block} (hc : Chain h e a [b])
    (hn : n ≤ b.size) (hend : a + 12 + b.size ≤ e) (he : e ≤ 2 ^ 32) (hsmall : b.size ≤ heapSize) :
    Chain (h.takeBlock a n).1 e a (place 12 4 n b) ∧ (h.takeBlock a n).2 = add32 a 12 ∧
      (h.takeBlock a n).1.heapHead = h.heapHead ∧
      ∀ x, x < a ∨ a + 12 + b.size ≤ x → (h.takeBlock a n).1.mem x = h.mem x := by
  obtain ⟨⟨hsize, hfree, hnext⟩, _⟩ := hc
  unfold heapSize at hsmall
  have h16 : add32 (add32 n 12) 4 = n + 12 + 4 := by
    rw [add32_of_lt (a := n) (by omega), add32_of_lt (by omega)]
  by_cases hsplit : b.size > n + 12 + 4
  · have hnew : add32 (add32 a 12) n = a + 12 + n := by
      rw [add32_of_lt (a := a) (by omega), add32_of_lt (by omega)]
    have hrest : sub32 (sub32 b.size n) 12 = b.size - n - 12 := by
      rw [sub32_of_le (a := b.size) (by omega) hn, sub32_of_le (by omega) (by omega)]
    have hlink := link_lt hend he
    simp only [Heap.takeBlock, blockMetaSize, h16, hsize, hsplit, if_true, hnew, hrest]
    refine ⟨?_, trivial, rfl, ?_⟩
    · rw [place, if_pos hsplit]
      have hend' : a + 12 + n + 12 + (b.size - n - 12) = a + 12 + b.size := by omega
      simp only [Chain, Header, Heap.size, Heap.isFree, Heap.next, Heap.setSize, Heap.setIsFree,
        Heap.setNext, hend'] at hnext ⊢
      simp (disch := omega) only [load_store_word, load_store_disjoint, hnext, link_of_lt]
      simp
    · intro x hx
      simp only [Heap.setSize, Heap.setIsFree, Heap.setNext]
      simp (disch := omega) only [store_outside]
  · simp only [Heap.takeBlock, blockMetaSize, h16, hsize, hsplit, if_false]
    refine ⟨?_, trivial, rfl, ?_⟩
    · rw [place, if_neg hsplit]
      simp only [Chain, Header, Heap.size, Heap.isFree, Heap.next, Heap.setIsFree] at hsize hnext ⊢
      simp (disch := omega) only [load_store_word, load_store_disjoint, hnext, hsize]
      simp
    · intro x hx
      simp only [Heap.setIsFree]
      simp (disch := omega) only [store_outside]

/-- A loop that starts at `link e a` and follows the `next` pointers visits the blocks of the
chain and then ends. `cons` gives what it finds at a block. -/
theorem Chain.walk {h : Heap} {e : Nat} {motive : (fuel a : Nat) → List Block → Prop}
    (nil : ∀ fuel, motive (fuel + 1) e [])
    (cons : ∀ fuel a b bs, 0 < a → a < e → Header h e a b →
      motive fuel (a + 12 + b.size) bs → motive (fuel + 1) a (b :: bs))
    {bs : List Block} {a fuel : Nat} (hc : Chain h e a bs) (hend : a + extent 12 bs = e)
    (hpos : 0 < a) (hfuel : bs.length < fuel) : motive fuel a bs := by
  induction bs generalizing a fuel with
  | nil =>
    obtain ⟨fuel, rfl⟩ := Nat.exists_eq_succ_of_ne_zero (Nat.ne_zero_of_lt hfuel)
    obtain rfl : a = e := hend
    exact nil fuel
  | cons b bs ih =>
    obtain ⟨fuel, rfl⟩ := Nat.exists_eq_succ_of_ne_zero (Nat.ne_zero_of_lt hfuel)
    obtain ⟨hheader, hrest⟩ := hc
    rw [extent] at hend
    exact cons fuel a b bs hpos (by omega) hheader
      (ih hrest (by omega) (by omega) (Nat.lt_of_succ_lt_succ hfuel))

/-- The loop of `kmalloc` from the block at `a` on. -/
theorem kmallocLoop_eq {h : Heap} {e n : Nat} {bs : List Block} {a fuel : Nat} (hc : Chain h e a bs)
    (hend : a + extent 12 bs = e) (hpos : 0 < a) (hfuel : bs.length < fuel) :
    h.kmallocLoop n fuel (link e a) =
      match allocate 12 4 n bs with
      | none => some (h, 0)
      | some (o, _) => some (h.takeBlock (a + o) n) := by
  refine Chain.walk (motive := fun fuel a bs => h.kmallocLoop n fuel (link e a) =
      match allocate 12 4 n bs with
      | none => some (h, 0)
      | some (o, _) => some (h.takeBlock (a + o) n)) ?_ ?_ hc hend hpos hfuel
  · intro fuel
    rw [link_self, Heap.kmallocLoop, if_pos rfl]
    rfl
  · rintro fuel a b bs hpos hlt ⟨hsize, hfree, hnext⟩ ih
    rw [link_of_lt hlt, Heap.kmallocLoop, if_neg (Nat.ne_of_gt hpos), allocate]
    by_cases hfit : b.free = true ∧ n ≤ b.size
    · have hfit' : h.isFree a ≠ 0 ∧ h.size a ≥ n := ⟨hfree.mpr hfit.1, by rw [hsize]; exact hfit.2⟩
      rw [if_pos hfit, if_pos hfit']
      rfl
    · have hfit' : ¬ (h.isFree a ≠ 0 ∧ h.size a ≥ n) := by
        rw [hsize, hfree]
        exact hfit
      rw [if_neg hfit, if_neg hfit', hnext, ih]
      cases allocate 12 4 n bs with
      | none => rfl
      | some r => simp only [Option.map_some, ← Nat.add_assoc]

/-! ## Merging -/

/-- Joining two free blocks. -/
theorem joinNext_chain {h : Heap} {e a : Nat} {b c : Block} {bs : List Block}
    (hc : Chain h e a (b :: c :: bs)) (hend : a + extent 12 (b :: c :: bs) = e) (he : e ≤ 2 ^ 32)
    (hpos : 0 < a) (hfree : b.free = true) :
    Chain (h.joinNext a) e a (⟨b.size + (12 + c.size), true⟩ :: bs) ∧
      (h.joinNext a).heapHead = h.heapHead ∧
      ∀ x, x < a ∨ a + 12 ≤ x → (h.joinNext a).mem x = h.mem x := by
  simp only [extent] at hend
  obtain ⟨⟨hsize, hflag, hnext⟩, ⟨hsize', _, hnext'⟩, hrest⟩ := hc
  rw [link_of_lt (by omega)] at hnext
  have hsum : add32 (h.size a) (add32 blockMetaSize (h.size (a + 12 + b.size))) =
      b.size + (12 + c.size) := by
    rw [hsize, hsize', blockMetaSize, add32_of_lt (by omega : 12 + c.size < 2 ^ 32),
      add32_of_lt (by omega)]
  -- `next` is read again after `size` was written
  have hread : ∀ x, a + 4 ≤ x → (h.setSize a (b.size + (12 + c.size))).next x = h.next x := by
    intro x hx
    simp only [Heap.next, Heap.setSize]
    simp (disch := omega) only [load_store_disjoint]
  have hnext2 : (h.setSize a (b.size + (12 + c.size))).next a = a + 12 + b.size := by
    rw [← hnext]
    simp only [Heap.next, Heap.setSize]
    simp (disch := omega) only [load_store_disjoint]
  have haddr : a + 12 + (b.size + (12 + c.size)) = a + 12 + b.size + 12 + c.size := by omega
  have hlink := link_lt (e := e) (a := a + 12 + b.size + 12 + c.size) (by omega) he
  simp only [Heap.joinNext, hnext, hsum, hnext2, hread _ (by omega : a + 4 ≤ a + 12 + b.size),
    hnext']
  refine ⟨⟨⟨?_, ?_, ?_⟩, ?_⟩, rfl, ?_⟩
  · simp only [Heap.size, Heap.setSize, Heap.setNext]
    simp (disch := omega) only [load_store_word, load_store_disjoint]
  · have hset : h.isFree a ≠ 0 := hflag.mpr hfree
    simp only [Heap.isFree, Heap.setSize, Heap.setNext] at hset ⊢
    simp (disch := omega) only [load_store_disjoint]
    simpa using hset
  · simp only [Heap.next, Heap.setSize, Heap.setNext, haddr]
    simp (disch := omega) only [load_store_word]
  · simp only [haddr]
    refine hrest.frame fun x hx _ => ?_
    simp only [Heap.setSize, Heap.setNext]
    simp (disch := omega) only [store_outside]
  · intro x hx
    simp only [Heap.setSize, Heap.setNext]
    simp (disch := omega) only [store_outside]

/-- The loop of `kfree` from the block at `a` on merges its list and changes no byte
in front of it or in a used block. The induction follows the list: a round either
joins the next block or moves on to it. -/
theorem mergeLoop_chain {h : Heap} {e : Nat} {b : Block} {bs : List Block} {a fuel : Nat}
    (hc : Chain h e a (b :: bs)) (hend : a + extent 12 (b :: bs) = e) (he : e ≤ 2 ^ 32)
    (hpos : 0 < a) (hfuel : bs.length + 1 < fuel) :
    ∃ h', h.mergeLoop fuel a = some h' ∧ Chain h' e a (mergeFrom 12 b bs) ∧
      h'.heapHead = h.heapHead ∧ ∀ x, x < a ∨ InUsed 12 a (b :: bs) x → h'.mem x = h.mem x := by
  induction bs generalizing h b a fuel with
  | nil =>
    obtain ⟨fuel, rfl⟩ : ∃ k, fuel = k + 2 := ⟨fuel - 2, by simp at hfuel; omega⟩
    simp only [extent] at hend
    have hzero : h.next a = 0 := by rw [hc.1.2.2, link, if_pos (by omega)]
    refine ⟨h, ?_, hc, rfl, fun _ _ => rfl⟩
    rw [Heap.mergeLoop, if_neg (by omega), if_neg (fun hc => hc.2.1 hzero), hzero, Heap.mergeLoop,
      if_pos rfl]
  | cons c bs ih =>
    obtain ⟨fuel, rfl⟩ : ∃ k, fuel = k + 1 := ⟨fuel - 1, by omega⟩
    rw [List.length_cons] at hfuel
    have hend' := hend
    simp only [extent] at hend'
    have hfree := hc.1.2.1
    have hfree' := hc.2.1.2.1
    have hnext := hc.1.2.2
    rw [link_of_lt (by omega)] at hnext
    rw [Heap.mergeLoop, if_neg (by omega), hnext, mergeFrom]
    by_cases hboth : b.free = true ∧ c.free = true
    · obtain ⟨hjoin, hhead1, hmem1⟩ := joinNext_chain hc hend he hpos hboth.1
      obtain ⟨h', hloop, hchain, hhead2, hmem2⟩ := ih hjoin (by simp only [extent]; omega) hpos
        (show bs.length + 1 < fuel by omega)
      rw [if_pos ⟨hfree.mpr hboth.1, by omega, hfree'.mpr hboth.2⟩, if_pos hboth]
      refine ⟨h', hloop, hchain, hhead2.trans hhead1, fun x hx => ?_⟩
      have haddr : a + 12 + b.size + 12 + c.size = a + 12 + (b.size + (12 + c.size)) := by omega
      rcases hx with hlow | ⟨hused, _⟩ | ⟨hused, _⟩ | hrest
      · exact (hmem2 x (Or.inl hlow)).trans (hmem1 x (Or.inl hlow))
      · exact absurd (hboth.1.symm.trans hused) (by decide)
      · exact absurd (hboth.2.symm.trans hused) (by decide)
      · have hle := hrest.le
        rw [haddr] at hrest
        exact (hmem2 x (Or.inr (Or.inr hrest))).trans (hmem1 x (Or.inr (by omega)))
    · obtain ⟨h', hloop, hchain, hhead, hmem⟩ := ih hc.2 (by simp only [extent]; omega) (by omega)
        (show bs.length + 1 < fuel by omega)
      rw [if_neg fun hcond => hboth ⟨hfree.mp hcond.1, hfree'.mp hcond.2.2⟩, if_neg hboth]
      refine ⟨h', hloop, ⟨hc.1.frame fun x _ hx => hmem x (by omega), hchain⟩, hhead, ?_⟩
      rintro x (hlow | ⟨_, _, hhigh⟩ | hrest)
      · exact hmem x (by omega)
      · exact hmem x (Or.inl hhigh)
      · exact hmem x (Or.inr hrest)

/-! ## Statistics -/

/-- The loops of the statistics from the block at `a` on, for a function that looks at
`is_free` only to tell whether it is 0. -/
theorem foldBlocks_eq {h : Heap} {e : Nat} {f : Nat → Nat → Nat → Nat} {g : Nat → Block → Nat}
    (hfg : ∀ acc isFree (b : Block), (isFree ≠ 0 ↔ b.free = true) → f acc b.size isFree = g acc b)
    {bs : List Block} {a fuel acc : Nat} (hc : Chain h e a bs) (hend : a + extent 12 bs = e)
    (hpos : 0 < a) (hfuel : bs.length < fuel) :
    h.foldBlocks f fuel (link e a) acc = some (bs.foldl g acc) := by
  refine Chain.walk (motive := fun fuel a bs =>
      ∀ acc, h.foldBlocks f fuel (link e a) acc = some (bs.foldl g acc))
    ?_ ?_ hc hend hpos hfuel acc
  · intro fuel acc
    rw [link_self, Heap.foldBlocks, if_pos rfl]
    rfl
  · rintro fuel a b bs hpos hlt ⟨hsize, hfree, hnext⟩ ih acc
    rw [link_of_lt hlt, Heap.foldBlocks, if_neg (Nat.ne_of_gt hpos), hnext, hsize,
      hfg acc _ b hfree, List.foldl_cons]
    exact ih _

/-- Adding up `w` over the blocks with flag `f` does not overflow in a small heap. -/
theorem foldl_add32 (f : Bool) (w : Block → Nat) (bs : List Block) (acc : Nat)
    (hlt : acc + sumOf f w bs < 2 ^ 32) :
    bs.foldl (fun acc b => if b.free = f then add32 acc (w b) else acc) acc =
      acc + sumOf f w bs := by
  induction bs generalizing acc with
  | nil => rfl
  | cons b bs ih =>
    rw [sumOf] at hlt ⊢
    rw [List.foldl_cons]
    by_cases hb : b.free = f
    · rw [if_pos hb] at hlt ⊢
      rw [if_pos hb, add32_of_lt (by omega), ih _ (by omega), Nat.add_assoc]
    · rw [if_neg hb] at hlt ⊢
      rw [if_neg hb, ih _ (by omega), Nat.zero_add]

/-! ## Runs -/

/-- The heap together with the live allocations: their pointers and the sizes that
were asked for. -/
structure HeapState where
  heap : Heap
  live : List (Nat × Nat)

inductive HeapAction
  | kmalloc (size : UInt32)
  | kfree (ptr : Nat)
  | write (addr : Nat) (v : UInt8)

/-- One action. A call that does not return would leave the state as it is; there is
none (`run_heap_integrity`). -/
def HeapState.step (s : HeapState) : HeapAction → HeapState
  | .kmalloc size =>
    match s.heap.kmalloc size with
    | some (h, p) => ⟨h, if p = 0 then s.live else (p, size.toNat) :: s.live⟩
    | none => s
  | .kfree ptr =>
    match s.heap.kfree ptr with
    | some h => ⟨h, s.live.filter (·.1 ≠ ptr)⟩
    | none => s
  | .write addr v => ⟨{ s.heap with mem := Function.update s.heap.mem addr v }, s.live⟩

/-- The callers free 0 or a live pointer, and write outside of `kernel_heap` or into
the block of a live allocation. -/
def HeapState.Allowed (kernelHeap : KernelHeap) (s : HeapState) : HeapAction → Prop
  | .kmalloc _ => True
  | .kfree ptr => ptr = 0 ∨ ∃ n, (ptr, n) ∈ s.live
  | .write addr _ =>
    (addr < kernelHeap.addr ∨ kernelHeap.addr + heapSize ≤ addr) ∨
      ∃ p n, (p, n) ∈ s.live ∧ p ≤ addr ∧ addr < p + s.heap.size (p - blockMetaSize)

/-- All runs after `init_heap`. -/
def heapRuns (kernelHeap : KernelHeap) : TransitionSystem HeapState HeapAction where
  init := fun s => ∃ h0 : Heap, s = ⟨h0.initHeap kernelHeap, []⟩
  allowed := HeapState.Allowed kernelHeap
  step := HeapState.step

/-- The invariant of the runs, with the block list `bs`. -/
structure HeapInv (kernelHeap : KernelHeap) (s : HeapState) (bs : List Block) : Prop where
  head : s.heap.heapHead = kernelHeap.addr
  chain : Chain s.heap (kernelHeap.addr + heapSize) kernelHeap.addr bs
  tiles : extent blockMetaSize bs = heapSize
  coalesced : Coalesced bs
  used : ∀ p n, (p, n) ∈ s.live → ∃ o b, At blockMetaSize bs o b ∧
    p = kernelHeap.addr + o + blockMetaSize ∧ b.free = false ∧ n ≤ b.size
  nodup : (s.live.map Prod.fst).Nodup

namespace HeapInv

variable {kernelHeap : KernelHeap} {s : HeapState} {bs : List Block}

theorem length_lt (h : HeapInv kernelHeap s bs) : bs.length + 1 < heapSize := by
  have hlen : bs.length * blockMetaSize ≤ extent blockMetaSize bs := length_mul_le_extent bs
  rw [h.tiles] at hlen
  unfold blockMetaSize heapSize at *
  omega

theorem head_link (h : HeapInv kernelHeap s bs) :
    s.heap.heapHead = link (kernelHeap.addr + heapSize) kernelHeap.addr := by
  rw [h.head, link_of_lt]
  exact Nat.lt_add_of_pos_right (by decide)

theorem live_ne_free (h : HeapInv kernelHeap s bs) {p n o : Nat} {b : Block}
    (hp : (p, n) ∈ s.live) (hb : At blockMetaSize bs o b) (hfree : b.free = true) :
    p ≠ kernelHeap.addr + o + blockMetaSize := by
  obtain ⟨o', c, hc, hpo, hused, _⟩ := h.used p n hp
  intro heq
  have ho : o' = o := by omega
  subst ho
  rw [hb.unique (by decide) hc, hused] at hfree
  exact absurd hfree (by decide)

/-- The payload of a live allocation is apart from every other block. -/
theorem live_apart (h : HeapInv kernelHeap s bs) {p n o : Nat} {b : Block}
    (hp : (p, n) ∈ s.live) (hb : At blockMetaSize bs o b)
    (hne : p ≠ kernelHeap.addr + o + blockMetaSize) :
    p + n ≤ kernelHeap.addr + o ∨ kernelHeap.addr + o + blockMetaSize + b.size ≤ p := by
  obtain ⟨o', c, hc, hpo, _, hle⟩ := h.used p n hp
  have := hc.apart hb (by omega)
  omega

/-- The payload of a live allocation overlaps no header. -/
theorem payload_header (h : HeapInv kernelHeap s bs) {p n o : Nat} {b : Block}
    (hp : (p, n) ∈ s.live) (hb : At blockMetaSize bs o b) :
    p + n ≤ kernelHeap.addr + o ∨ kernelHeap.addr + o + blockMetaSize ≤ p := by
  by_cases heq : p = kernelHeap.addr + o + blockMetaSize
  · exact Or.inr (Nat.le_of_eq heq.symm)
  · have := h.live_apart hp hb heq
    omega

/-- The payloads of two live allocations do not overlap. -/
theorem payload_apart (h : HeapInv kernelHeap s bs) {p n q m : Nat} (hp : (p, n) ∈ s.live)
    (hq : (q, m) ∈ s.live) (hne : q ≠ p) : p + n ≤ q ∨ q + m ≤ p := by
  obtain ⟨o, b, hb, hqo, _, hle⟩ := h.used q m hq
  have := h.live_apart hp hb (by omega)
  omega

/-- `kmalloc` returns, and it returns 0 exactly when no free block is large enough.
Live allocations keep their bytes, and so does the memory outside of the heap. -/
theorem kmalloc_cases (h : HeapInv kernelHeap s bs) (size : UInt32) :
    (allocate blockMetaSize 4 size.toNat bs = none ∧ s.heap.kmalloc size = some (s.heap, 0)) ∨
    ∃ o bs' h', allocate blockMetaSize 4 size.toNat bs = some (o, bs') ∧
      s.heap.kmalloc size = some (h', kernelHeap.addr + o + blockMetaSize) ∧
      h'.heapHead = s.heap.heapHead ∧
      Chain h' (kernelHeap.addr + heapSize) kernelHeap.addr bs' ∧
      (∀ p n, (p, n) ∈ s.live → ∀ x, p ≤ x → x < p + n → h'.mem x = s.heap.mem x) ∧
      ∀ x, x < kernelHeap.addr ∨ kernelHeap.addr + heapSize ≤ x → h'.mem x = s.heap.mem x := by
  have htiles := h.tiles
  have hfits := kernelHeap.fits
  have heq := kmallocLoop_eq (n := size.toNat) h.chain (by rw [← h.tiles]; rfl) kernelHeap.pos
    (Nat.lt_of_succ_lt h.length_lt)
  rw [← h.head_link] at heq
  cases halloc : allocate 12 4 size.toNat bs with
  | none =>
    rw [halloc] at heq
    exact Or.inl ⟨halloc, heq⟩
  | some r =>
    obtain ⟨o, bs'⟩ := r
    rw [halloc] at heq
    obtain ⟨pre, b, post, rfl, hfree, hn, rfl, rfl⟩ := allocate_eq_some halloc
    have hmid := (Chain.append.mp (Chain.append.mp h.chain).1).2
    rw [blockMetaSize, extent_append, extent_append, extent, extent] at htiles
    unfold heapSize at *
    obtain ⟨hchain, hptr, hhead, hmem⟩ := takeBlock_chain hmid hn (by omega) (Nat.le_of_lt hfits)
      (by unfold heapSize; omega)
    rw [add32_of_lt (by omega)] at hptr
    refine Or.inr ⟨_, _, _, halloc, ?_, hhead, ?_, ?_, fun x hx => hmem x (by omega)⟩
    · exact heq.trans (congrArg some (Prod.ext rfl hptr))
    · refine h.chain.replace (by rw [extent_place]; rfl) (fun x hx => hmem x ?_) hchain
      rw [extent, extent] at hx
      omega
    · intro p n hp x hlow hhigh
      have hb : At blockMetaSize (pre ++ [b] ++ post) (extent 12 pre) b := ⟨pre, post, by simp, rfl⟩
      have := h.live_apart hp hb (h.live_ne_free hp hb hfree)
      rw [blockMetaSize] at this
      exact hmem x (by omega)

/-- `kmalloc` always returns, and returns 0 exactly when no free block fits. -/
theorem kmalloc_eq_zero_iff (h : HeapInv kernelHeap s bs) (size : UInt32) :
    ∃ h' p, s.heap.kmalloc size = some (h', p) ∧
      (p = 0 ↔ ∀ b, b ∈ bs → b.free = true → b.size < size.toNat) := by
  have hiff : (∀ b, b ∈ bs → b.free = true → b.size < size.toNat) ↔
      allocate blockMetaSize 4 size.toNat bs = none := by
    rw [allocate_eq_none]
    exact forall₂_congr fun b _ => by rw [not_and, Nat.not_le]
  rw [hiff]
  rcases h.kmalloc_cases size with ⟨hnone, heq⟩ | ⟨o, bs', h', hsome, heq, _⟩
  · exact ⟨_, _, heq, fun _ => hnone, fun _ => rfl⟩
  · refine ⟨_, _, heq, fun h0 => ?_, fun hnone => ?_⟩
    · have := kernelHeap.pos
      omega
    · rw [hnone] at hsome
      exact absurd hsome (by simp)

/-- A block of the list is marked free in memory. -/
theorem markFree_chain {h : Heap} {e a : Nat} {pre post : List Block} {b : Block}
    (hc : Chain h e a (pre ++ [b] ++ post)) :
    Chain (h.setIsFree (a + extent 12 pre) 1) e a (pre ++ [⟨b.size, true⟩] ++ post) := by
  obtain ⟨⟨hsize, _, hnext⟩, _⟩ := (Chain.append.mp (Chain.append.mp hc).1).2
  refine hc.replace rfl (fun x hx => ?_) ⟨⟨?_, ?_, ?_⟩, trivial⟩
  · rw [extent, extent] at hx
    exact store_outside (by omega)
  · rw [← hsize]
    exact load_store_disjoint (by omega)
  · simp only [Heap.isFree, Heap.setIsFree]
    rw [load_store_word (by omega)]
    simp
  · rw [← hnext]
    exact load_store_disjoint (by omega)

/-- The merging loop from the head of the list. -/
theorem mergeLoop_whole {h : Heap} {e a fuel : Nat} {bs : List Block} (hne : bs ≠ [])
    (hc : Chain h e a bs) (hend : a + extent 12 bs = e) (he : e ≤ 2 ^ 32) (hpos : 0 < a)
    (hfuel : bs.length < fuel) :
    ∃ h', h.mergeLoop fuel a = some h' ∧ Chain h' e a (merge 12 bs) ∧
      h'.heapHead = h.heapHead ∧ ∀ x, InUsed 12 a bs x → h'.mem x = h.mem x := by
  cases bs with
  | nil => exact absurd rfl hne
  | cons c cs =>
    obtain ⟨h', hloop, hc', hhead, hmem⟩ := mergeLoop_chain hc hend he hpos hfuel
    exact ⟨h', hloop, hc', hhead, fun x hx => hmem x (Or.inr hx)⟩

/-- `kfree` of a live pointer returns, and the new list is the old one with that
block freed and merged with its neighbours. -/
theorem kfree_live (h : HeapInv kernelHeap s bs) {ptr n : Nat} (hlive : (ptr, n) ∈ s.live) :
    ∃ pre b post h', bs = pre ++ [b] ++ post ∧ b.free = false ∧
      ptr = kernelHeap.addr + extent blockMetaSize pre + blockMetaSize ∧
      s.heap.kfree ptr = some h' ∧ h'.heapHead = s.heap.heapHead ∧
      Chain h' (kernelHeap.addr + heapSize) kernelHeap.addr
        (merge blockMetaSize (pre ++ [⟨b.size, true⟩] ++ post)) ∧
      ∀ p n, (p, n) ∈ s.live → p ≠ ptr → ∀ x, p ≤ x → x < p + n → h'.mem x = s.heap.mem x := by
  obtain ⟨_, b, ⟨pre, post, hbs, rfl⟩, hptr, hused, _⟩ := h.used ptr n hlive
  have hbs' : bs = pre ++ [b] ++ post := by rw [hbs]; simp
  subst hbs'
  have hfits := kernelHeap.fits
  have htiles := h.tiles
  have hlen := Nat.lt_of_succ_lt h.length_lt
  rw [blockMetaSize, extent_append, extent_append, extent, extent] at htiles
  rw [blockMetaSize] at hptr
  have hblock : sub32 ptr blockMetaSize = kernelHeap.addr + extent 12 pre := by
    rw [blockMetaSize, sub32_of_le (by omega) (by omega)]
    omega
  obtain ⟨h', hloop, hc, hhead, hmem⟩ := mergeLoop_whole (by simp) (markFree_chain h.chain)
    (by rw [extent_append, extent_append, extent, extent, htiles]) (Nat.le_of_lt hfits)
    kernelHeap.pos (by simpa using hlen)
  refine ⟨pre, b, post, h', rfl, hused, hptr, ?_, hhead, hc, ?_⟩
  · have hstart : (s.heap.setIsFree (kernelHeap.addr + extent 12 pre) 1).heapHead =
        kernelHeap.addr := h.head
    rw [Heap.kfree, if_neg (by omega), hblock]
    simp only [hstart]
    exact hloop
  · -- the other live allocations lie in used blocks, which neither write touches
    intro p m hp hne x hlow hhigh
    have hb : At blockMetaSize (pre ++ [b] ++ post) (extent blockMetaSize pre) b :=
      ⟨pre, post, by simp, rfl⟩
    obtain ⟨o, c, hc, hpo, hcused, hle⟩ := h.used p m hp
    have hapart := hc.apart hb fun heqo => hne (by rw [hpo, heqo, hptr]; rfl)
    have hkeep := hc.replace [⟨b.size, true⟩] rfl (by simp only [extent]; omega) (by decide)
    rw [blockMetaSize] at hpo hapart
    rw [hmem x (hkeep.inUsed hcused (by omega) (by rw [blockMetaSize]; omega))]
    exact store_outside (by omega)

/-! ### The actions keep the invariant -/

theorem init (kernelHeap : KernelHeap) (h0 : Heap) :
    HeapInv kernelHeap ⟨h0.initHeap kernelHeap, []⟩ [⟨heapSize - blockMetaSize, true⟩] where
  head := rfl
  chain := by
    refine ⟨⟨?_, ?_, ?_⟩, trivial⟩
    · simp only [Heap.initHeap, Heap.size, Heap.setSize, Heap.setIsFree, Heap.setNext]
      simp (disch := omega) only [load_store_disjoint]
      exact load_store_word (by decide)
    · simp only [Heap.initHeap, Heap.isFree, Heap.setSize, Heap.setIsFree, Heap.setNext]
      simp (disch := omega) only [load_store_word, load_store_disjoint]
      simp
    · simp only [Heap.initHeap, Heap.next, Heap.setSize, Heap.setIsFree, Heap.setNext]
      simp (disch := omega) only [load_store_word]
      rw [link, if_pos]
      unfold heapSize blockMetaSize
      omega
  tiles := by
    simp only [extent]
    unfold heapSize blockMetaSize
    omega
  coalesced := List.isChain_singleton _
  used := by simp
  nodup := List.nodup_nil

/-- `kmalloc` serves the request in the block list. The pointer returned is the payload of a
used block, unless no block fits; other used blocks stay. -/
theorem kmalloc_serve (h : HeapInv kernelHeap s bs) (size : UInt32) :
    ∃ h' p, s.heap.kmalloc size = some (h', p) ∧
      (p = 0 ↔ allocate blockMetaSize 4 size.toNat bs = none) ∧
      HeapInv kernelHeap ⟨h', if p = 0 then s.live else (p, size.toNat) :: s.live⟩
        (serve blockMetaSize 4 size.toNat bs) := by
  rcases h.kmalloc_cases size with ⟨hnone, heq⟩ | ⟨o, bs', h', halloc, heq, hhead, hchain, _⟩
  · refine ⟨_, _, heq, ⟨fun _ => hnone, fun _ => rfl⟩, ?_⟩
    rw [serve, hnone, if_pos rfl]
    exact h
  · have hpos := kernelHeap.pos
    have hne : kernelHeap.addr + o + blockMetaSize ≠ 0 := by omega
    refine ⟨_, _, heq, ⟨fun h0 => absurd h0 hne, fun hnone => ?_⟩, ?_⟩
    · rw [hnone] at halloc
      cases halloc
    rw [serve, halloc, if_neg hne]
    obtain ⟨pre, b, post, rfl, hfree, hn, rfl, rfl⟩ := allocate_eq_some halloc
    have hold : At blockMetaSize (pre ++ [b] ++ post) (extent blockMetaSize pre) b :=
      ⟨pre, post, by simp, rfl⟩
    -- a used block of the old list is still there, apart from the block taken
    have hkeep : ∀ o c, At blockMetaSize (pre ++ [b] ++ post) o c → c.free = false →
        At blockMetaSize (pre ++ place blockMetaSize 4 size.toNat b ++ post) o c ∧
          o ≠ extent blockMetaSize pre := by
      intro o c hc hused
      have hapart : o ≠ extent blockMetaSize pre := by
        rintro rfl
        have hbc := hold.unique (by decide) hc
        rw [← hbc, hfree] at hused
        exact absurd hused (by decide)
      refine ⟨hc.replace _ extent_place ?_ (by decide), hapart⟩
      have := hc.apart hold hapart
      simp only [extent]
      omega
    refine ⟨hhead.trans h.head, hchain, ?_, h.coalesced.place hfree, ?_, ?_⟩
    · have htiles := h.tiles
      rw [extent_append, extent_append] at htiles
      rw [Option.elim_some, extent_append, extent_append, extent_place]
      exact htiles
    · intro p n hp
      rcases List.mem_cons.mp hp with heqp | hp
      · cases heqp
        obtain ⟨m, rest, hplace, hle⟩ := place_head blockMetaSize 4 hn
        refine ⟨extent blockMetaSize pre, ⟨m, false⟩, ⟨pre, rest ++ post, ?_, rfl⟩, rfl, rfl, hle⟩
        rw [Option.elim_some, hplace]
        simp
      · obtain ⟨o, c, hc, hpo, hused, hle⟩ := h.used p n hp
        exact ⟨o, c, (hkeep o c hc hused).1, hpo, hused, hle⟩
    · rw [List.map_cons, List.nodup_cons]
      refine ⟨fun hmem => ?_, h.nodup⟩
      obtain ⟨⟨p, n⟩, hp, heqp⟩ := List.mem_map.mp hmem
      obtain ⟨o, c, hc, hpo, hused, _⟩ := h.used p n hp
      have := (hkeep o c hc hused).2
      simp only at heqp
      omega

theorem kmalloc_step (h : HeapInv kernelHeap s bs) (size : UInt32) :
    ∃ bs', HeapInv kernelHeap (s.step (.kmalloc size)) bs' := by
  obtain ⟨h', p, heq, _, hinv⟩ := h.kmalloc_serve size
  refine ⟨serve blockMetaSize 4 size.toNat bs, ?_⟩
  simp only [HeapState.step, heq]
  exact hinv

theorem nodup_filter (h : HeapInv kernelHeap s bs) (ptr : Nat) :
    ((s.live.filter (·.1 ≠ ptr)).map Prod.fst).Nodup :=
  h.nodup.sublist (List.filter_sublist.map _)

/-- `kfree` of a live pointer returns, and takes its block out of the used ones. -/
theorem kfree_release (h : HeapInv kernelHeap s bs) {ptr n : Nat} (hlive : (ptr, n) ∈ s.live) :
    ∃ h' bs', s.heap.kfree ptr = some h' ∧
      HeapInv kernelHeap ⟨h', s.live.filter (·.1 ≠ ptr)⟩ bs' ∧
      ∀ o c, c.free = false → (At blockMetaSize bs' o c ↔
        At blockMetaSize bs o c ∧ kernelHeap.addr + o + blockMetaSize ≠ ptr) := by
  obtain ⟨pre, b, post, h', rfl, _, hptr, heq, hhead, hchain, _⟩ := h.kfree_live hlive
  have hused : ∀ o c, c.free = false →
      (At blockMetaSize (merge blockMetaSize (pre ++ [⟨b.size, true⟩] ++ post)) o c ↔
        At blockMetaSize (pre ++ [b] ++ post) o c ∧
          kernelHeap.addr + o + blockMetaSize ≠ ptr) := by
    intro o c hc
    rw [at_merge_iff hc, at_setFree (by decide) hc, hptr]
    refine and_congr_right fun _ => not_congr ?_
    omega
  refine ⟨h', _, heq, ⟨hhead.trans h.head, hchain, ?_, coalesced_merge _, ?_, h.nodup_filter ptr⟩,
    hused⟩
  · have htiles := h.tiles
    rw [extent_merge, extent_append, extent_append] at *
    exact htiles
  · intro p m hp
    obtain ⟨hp, hne⟩ := List.mem_filter.mp hp
    obtain ⟨o, c, hc, hpo, hcused, hle⟩ := h.used p m hp
    have hpne : p ≠ ptr := of_decide_eq_true hne
    exact ⟨o, c, (hused o c hcused).mpr ⟨hc, hpo ▸ hpne⟩, hpo, hcused, hle⟩

theorem kfree_null (h : HeapInv kernelHeap s bs) : HeapInv kernelHeap (s.step (.kfree 0)) bs := by
  simp only [HeapState.step, Heap.kfree, if_true]
  exact ⟨h.head, h.chain, h.tiles, h.coalesced,
    fun p n hp => h.used p n (List.mem_filter.mp hp).1, h.nodup_filter 0⟩

theorem kfree_step (h : HeapInv kernelHeap s bs) {ptr : Nat}
    (hallowed : ptr = 0 ∨ ∃ n, (ptr, n) ∈ s.live) :
    ∃ bs', HeapInv kernelHeap (s.step (.kfree ptr)) bs' := by
  rcases hallowed with rfl | ⟨n, hlive⟩
  · exact ⟨bs, h.kfree_null⟩
  · obtain ⟨h', bs', heq, hinv, _⟩ := h.kfree_release hlive
    refine ⟨bs', ?_⟩
    simp only [HeapState.step, heq]
    exact hinv

theorem write_step (h : HeapInv kernelHeap s bs) {addr : Nat} {v : UInt8}
    (hallowed : s.Allowed kernelHeap (.write addr v)) :
    HeapInv kernelHeap (s.step (.write addr v)) bs := by
  refine ⟨h.head, ?_, h.tiles, h.coalesced, h.used, h.nodup⟩
  refine h.chain.frame_headers fun o b hat x hlow hhigh => Function.update_of_ne ?_ _ _
  rcases hallowed with hout | ⟨p, n, hp, haddr, hend⟩
  · -- outside of the heap
    have hin : o + blockMetaSize + b.size ≤ extent blockMetaSize bs := At.lt hat
    rw [h.tiles, blockMetaSize] at hin
    omega
  · -- inside the payload of a used block
    obtain ⟨o', c, hc, hpo, _, _⟩ := h.used p n hp
    have hsize : s.heap.size (p - blockMetaSize) = c.size := by
      rw [hpo, Nat.add_sub_cancel]
      obtain ⟨pre, post, hbs, rfl⟩ := hc
      have hchain := h.chain
      rw [hbs] at hchain
      exact (Chain.append.mp hchain).2.1.1
    rw [hsize] at hend
    have hat' : At blockMetaSize bs o b := hat
    by_cases heqo : o' = o
    · rw [blockMetaSize] at hpo
      omega
    · have := hc.apart hat' heqo
      rw [blockMetaSize] at this hpo
      omega

theorem step (h : HeapInv kernelHeap s bs) {action : HeapAction}
    (hallowed : s.Allowed kernelHeap action) : ∃ bs', HeapInv kernelHeap (s.step action) bs' := by
  cases action with
  | kmalloc size => exact h.kmalloc_step size
  | kfree ptr => exact h.kfree_step hallowed
  | write addr v => exact ⟨bs, h.write_step hallowed⟩

/-- Writing anything into live allocations keeps the invariant. -/
theorem write_live (h : HeapInv kernelHeap s bs) {h' : Heap}
    (hhead : h'.heapHead = s.heap.heapHead)
    (hmem : ∀ x, (∀ p n, (p, n) ∈ s.live → x < p ∨ p + n ≤ x) → h'.mem x = s.heap.mem x) :
    HeapInv kernelHeap ⟨h', s.live⟩ bs := by
  refine ⟨hhead.trans h.head, ?_, h.tiles, h.coalesced, h.used, h.nodup⟩
  refine h.chain.frame_headers fun o b hat x hlow hhigh => hmem x fun p n hp => ?_
  have := h.payload_header hp hat
  rw [blockMetaSize] at this
  omega

/-- What a caller of `kmalloc` may rely on. -/
theorem kmalloc_spec (h : HeapInv kernelHeap s bs) {size : UInt32} {h' : Heap} {p : Nat}
    (heq : s.heap.kmalloc size = some (h', p)) :
    (p ≠ 0 → ∃ bs', HeapInv kernelHeap ⟨h', (p, size.toNat) :: s.live⟩ bs') ∧
      ∀ q n, (q, n) ∈ s.live → ∀ x, q ≤ x → x < q + n → h'.mem x = s.heap.mem x := by
  obtain ⟨bs', hstep⟩ := h.kmalloc_step size
  constructor
  · intro hne
    simp only [HeapState.step, heq, if_neg hne] at hstep
    exact ⟨bs', hstep⟩
  · rcases h.kmalloc_cases size with ⟨_, heq'⟩ | ⟨_, _, _, _, heq', _, _, hmem, _⟩
    · obtain ⟨rfl, _⟩ := Prod.mk.inj (Option.some.inj (heq.symm.trans heq'))
      exact fun _ _ _ _ _ _ => rfl
    · obtain ⟨rfl, _⟩ := Prod.mk.inj (Option.some.inj (heq.symm.trans heq'))
      exact hmem

/-- `kmalloc` writes to the heap only. -/
theorem kmalloc_outside (h : HeapInv kernelHeap s bs) {size : UInt32} {h' : Heap} {p : Nat}
    (heq : s.heap.kmalloc size = some (h', p)) {x : Nat}
    (hx : x < kernelHeap.addr ∨ kernelHeap.addr + heapSize ≤ x) : h'.mem x = s.heap.mem x := by
  rcases h.kmalloc_cases size with ⟨_, heq'⟩ | ⟨_, _, _, _, heq', _, _, _, hout⟩
  · obtain ⟨rfl, _⟩ := Prod.mk.inj (Option.some.inj (heq.symm.trans heq'))
    rfl
  · obtain ⟨rfl, _⟩ := Prod.mk.inj (Option.some.inj (heq.symm.trans heq'))
    exact hout x hx

/-- A live allocation that an action does not free stays, with the bytes that the
action does not write. -/
theorem step_live (h : HeapInv kernelHeap s bs) {action : HeapAction}
    (hallowed : s.Allowed kernelHeap action) {p n : Nat} (hp : (p, n) ∈ s.live)
    (hkeep : action ≠ .kfree p) :
    (p, n) ∈ (s.step action).live ∧ ∀ x, p ≤ x → x < p + n → (∀ v, action ≠ .write x v) →
      (s.step action).heap.mem x = s.heap.mem x := by
  cases action with
  | kmalloc size =>
    obtain ⟨h', q, heq, _⟩ := h.kmalloc_eq_zero_iff size
    obtain ⟨_, hmem⟩ := h.kmalloc_spec heq
    simp only [HeapState.step, heq]
    refine ⟨?_, fun x hlow hhigh _ => hmem p n hp x hlow hhigh⟩
    split
    · exact hp
    · exact List.mem_cons_of_mem _ hp
  | kfree ptr =>
    have hne : p ≠ ptr := fun heq => hkeep (by rw [heq])
    have hstay : (p, n) ∈ s.live.filter (·.1 ≠ ptr) := by simp [hp, hne]
    rcases hallowed with rfl | ⟨m, hlive⟩
    · simp only [HeapState.step, Heap.kfree, if_true]
      exact ⟨hstay, fun _ _ _ _ => trivial⟩
    · obtain ⟨_, _, _, h', _, _, _, heq, _, _, hmem⟩ := h.kfree_live hlive
      simp only [HeapState.step, heq]
      exact ⟨hstay, fun x hlow hhigh _ => hmem p n hp hne x hlow hhigh⟩
  | write addr v =>
    refine ⟨hp, fun x _ _ hother => Function.update_of_ne ?_ _ _⟩
    rintro rfl
    exact hother v rfl

/-- Live allocations lie in the heap. -/
theorem live_inside (h : HeapInv kernelHeap s bs) {p n : Nat} (hp : (p, n) ∈ s.live) :
    kernelHeap.addr ≤ p ∧ p + n ≤ kernelHeap.addr + heapSize := by
  obtain ⟨o, b, hb, hpo, _, hle⟩ := h.used p n hp
  have hin := hb.lt
  rw [h.tiles] at hin
  rw [blockMetaSize] at hpo hin
  omega

theorem live_range (h : HeapInv kernelHeap s bs) {p n : Nat} (hp : (p, n) ∈ s.live) :
    0 < p ∧ p + n < 2 ^ 32 := by
  have hin := h.live_inside hp
  have hfits := kernelHeap.fits
  have hpos := kernelHeap.pos
  omega

/-- No two live allocations overlap. -/
theorem live_separate (h : HeapInv kernelHeap s bs) : Packing.Apart s.live :=
  List.Pairwise.imp_of_mem (fun ha hb hne => h.payload_apart ha hb (Ne.symm hne))
    (List.pairwise_map.mp h.nodup)

/-- The live allocations with their headers fit into the heap. -/
theorem live_sum_le (h : HeapInv kernelHeap s bs) :
    (s.live.map fun b => b.2 + blockMetaSize).sum ≤ heapSize := by
  have hspan : ∀ b, b ∈ s.live → ∃ o c, At blockMetaSize bs o c ∧ kernelHeap.addr + o +
      blockMetaSize = b.1 ∧ b.2 ≤ c.size := by
    intro b hb
    obtain ⟨o, c, hc, hpo, _, hle⟩ := h.used b.1 b.2 hb
    exact ⟨o, c, hc, hpo.symm, hle⟩
  have hapart : Packing.Apart (s.live.map fun b => (b.1 - blockMetaSize, b.2 + blockMetaSize)) := by
    refine List.pairwise_map.mpr ?_
    refine List.Pairwise.imp_of_mem (fun {a b} ha hb hne => ?_) (List.pairwise_map.mp h.nodup)
    obtain ⟨o, c, hc, ho, hle⟩ := hspan a ha
    obtain ⟨o', c', hc', ho', hle'⟩ := hspan b hb
    have := hc.apart hc' (by omega)
    dsimp only
    omega
  have hsum := @Packing.Apart.sum_le _ hapart kernelHeap.addr (kernelHeap.addr + heapSize) ?_
  · rw [List.map_map, Nat.add_sub_cancel_left] at hsum
    exact hsum
  · intro i hi
    obtain ⟨b, hb, rfl⟩ := List.mem_map.mp hi
    obtain ⟨o, c, hc, ho, hle⟩ := hspan b hb
    have := hc.lt
    rw [h.tiles] at this
    dsimp only
    omega

end HeapInv

/-- The invariant holds in every state of a run. -/
theorem reachable_heapInv {kernelHeap : KernelHeap} {s : HeapState}
    (h : (heapRuns kernelHeap).Reachable s) : ∃ bs, HeapInv kernelHeap s bs := by
  refine h.invariant (P := fun s => ∃ bs, HeapInv kernelHeap s bs) ?_ ?_
  · rintro s ⟨h0, rfl⟩
    exact ⟨_, HeapInv.init kernelHeap h0⟩
  · rintro s action _ ⟨bs, hinv⟩ hallowed
    exact hinv.step hallowed

/-! ## Heap integrity -/

namespace HeapInv

variable {kernelHeap : KernelHeap} {s : HeapState} {bs : List Block}

/-- The statistics are sums over the block list. -/
theorem statistics (h : HeapInv kernelHeap s bs) :
    s.heap.heapGetUsedSize = some (sumOf false Block.size bs) ∧
      s.heap.heapGetFreeSize = some (sumOf true Block.size bs) ∧
      s.heap.heapGetAllocCount = some (sumOf false (fun _ => 1) bs) ∧
      s.heap.heapGetFreeCount = some (sumOf true (fun _ => 1) bs) := by
  have htotal : extent blockMetaSize bs = _ := extent_eq bs
  rw [h.tiles, blockMetaSize, heapSize] at htotal
  -- one loop: the function `f` adds `w` for the blocks with one value of the flag
  have hloop : ∀ (flag : Bool) (w : Block → Nat) (f : Nat → Nat → Nat → Nat),
      (∀ acc isFree (b : Block), (isFree ≠ 0 ↔ b.free = true) →
        f acc b.size isFree = if b.free = flag then add32 acc (w b) else acc) →
      sumOf flag w bs < 2 ^ 32 →
      s.heap.foldBlocks f heapSize s.heap.heapHead 0 = some (sumOf flag w bs) := by
    intro flag w f hf hlt
    rw [h.head_link, foldBlocks_eq hf h.chain (by rw [← h.tiles]; rfl) kernelHeap.pos
      (Nat.lt_of_succ_lt h.length_lt), foldl_add32 flag w bs 0 (by omega), Nat.zero_add]
  have hused : ∀ (isFree : Nat) (b : Block), (isFree ≠ 0 ↔ b.free = true) →
      (isFree = 0 ↔ b.free = false) := by
    intro isFree b hb
    rw [← Bool.not_eq_true, ← hb, not_not]
  refine ⟨hloop false Block.size _ ?_ (by omega), hloop true Block.size _ ?_ (by omega),
    hloop false (fun _ => 1) _ ?_ (by omega), hloop true (fun _ => 1) _ ?_ (by omega)⟩
  · intro acc isFree b hb
    simp only [hused isFree b hb]
  · intro acc isFree b hb
    simp only [hb]
  · intro acc isFree b hb
    simp only [hused isFree b hb]
  · intro acc isFree b hb
    simp only [hb]

end HeapInv

/-- Heap integrity. In every state of a run there is a block list `bs` such that
* the headers from `heap_head` on describe `bs`, each successor lying directly behind
  its block and the last block ending with the heap (`HeapInv.chain`,
  `HeapInv.tiles`), and no two neighbours are free (`HeapInv.coalesced`);
* every live allocation is a used block with enough payload (`HeapInv.used`), apart
  from all headers and from the other live payloads;
* `kmalloc` returns for every size, with 0 exactly when no free block is large enough,
  and `kfree` returns for every live pointer;
* the statistics add up to the heap size. -/
theorem run_heap_integrity {kernelHeap : KernelHeap} {s : HeapState}
    (h : (heapRuns kernelHeap).Reachable s) :
    ∃ bs, HeapInv kernelHeap s bs ∧
      (∀ p n, (p, n) ∈ s.live →
        (∀ o b, At blockMetaSize bs o b →
          p + n ≤ kernelHeap.addr + o ∨ kernelHeap.addr + o + blockMetaSize ≤ p) ∧
        (∀ q m, (q, m) ∈ s.live → q ≠ p → p + n ≤ q ∨ q + m ≤ p) ∧
        ∃ h', s.heap.kfree p = some h') ∧
      (∀ size : UInt32, ∃ h' p, s.heap.kmalloc size = some (h', p) ∧
        (p = 0 ↔ ∀ b, b ∈ bs → b.free = true → b.size < size.toNat)) ∧
      ∃ used free allocs frees, s.heap.heapGetUsedSize = some used ∧
        s.heap.heapGetFreeSize = some free ∧ s.heap.heapGetAllocCount = some allocs ∧
        s.heap.heapGetFreeCount = some frees ∧
        used + free + blockMetaSize * (allocs + frees) = heapSize := by
  obtain ⟨bs, hinv⟩ := reachable_heapInv h
  obtain ⟨hused, hfree, hallocs, hfrees⟩ := hinv.statistics
  refine ⟨bs, hinv, ?_, hinv.kmalloc_eq_zero_iff, _, _, _, _, hused, hfree, hallocs, hfrees, ?_⟩
  · intro p n hp
    refine ⟨fun o b hb => hinv.payload_header hp hb,
      fun q m hq hne => hinv.payload_apart hp hq hne, ?_⟩
    obtain ⟨_, _, _, h', _, _, _, heq, _⟩ := hinv.kfree_live hp
    exact ⟨h', heq⟩
  · rw [← extent_eq, hinv.tiles]

/-- A run: an allocation of 100 bytes on a heap at the address 1 MB. -/
theorem run_heap_integrity_sample :
    ∃ s : HeapState, s.live = [(0x100000 + 12, 100)] ∧
      ∃ bs, HeapInv ⟨0x100000, by decide, by decide, by decide⟩ s bs := by
  have hinit : (heapRuns ⟨0x100000, by decide, by decide, by decide⟩).Reachable
      ⟨Heap.initHeap ⟨0x100000, by decide, by decide, by decide⟩
        ⟨fun _ => 0, 0, 0, TraceRing.empty⟩, []⟩ :=
    .init ⟨_, rfl⟩
  have halloc := hinit.step (a := HeapAction.kmalloc 100) trivial
  obtain ⟨bs, hinv, _⟩ := run_heap_integrity halloc
  exact ⟨_, by decide +kernel, bs, hinv⟩

end Newrex
