import Newrex.Heap.Invariant

/-!
# Frees undo allocations

No two neighbours of the block list are free before a call of `kmalloc` or `kfree`, so that the
used blocks determine the whole list. `kmalloc` adds one used block and `kfree` takes one away,
whatever is merged or split on the way.

* `HeapInv.kmalloc_used` and `HeapInv.kfree_release`: what a call does to the used blocks;
* `HeapInv.kfree_kmalloc`, `HeapInv.kfree_comm` and `HeapInv.kfree_all` follow from that;
* `run_heap_release` is the result for all runs.
-/

namespace Newrex

open LittleEndian BlockList

/-! ## The block list in memory -/

namespace Heap

/-- The blocks from `curr` on, along the `next` pointers: address, size and free flag. -/
def blocksFrom : (fuel : Nat) → Heap → (curr : Nat) → Option (List (Nat × Nat × Bool))
  | 0, _, _ => none
  | fuel + 1, h, curr =>
    if curr = 0 then some []
    else
      (blocksFrom fuel h (h.next curr)).map
        ((curr, h.size curr, decide (h.isFree curr ≠ 0)) :: ·)

/-- The block list of the heap. -/
def blockList (h : Heap) : Option (List (Nat × Nat × Bool)) := blocksFrom heapSize h h.heapHead

end Heap

/-- The blocks with their addresses, when the first one is at `a`. -/
def placed : Nat → List Block → List (Nat × Nat × Bool)
  | _, [] => []
  | a, b :: bs => (a, b.size, b.free) :: placed (a + blockMetaSize + b.size) bs

theorem blocksFrom_eq {h : Heap} {e : Nat} {bs : List Block} {a fuel : Nat} (hc : Chain h e a bs)
    (hend : a + extent 12 bs = e) (hpos : 0 < a) (hfuel : bs.length < fuel) :
    h.blocksFrom fuel (link e a) = some (placed a bs) := by
  refine Chain.walk (motive := fun fuel a bs =>
      h.blocksFrom fuel (link e a) = some (placed a bs)) ?_ ?_ hc hend hpos hfuel
  · intro fuel
    rw [link_self, Heap.blocksFrom, if_pos rfl]
    rfl
  · rintro fuel a b bs hpos hlt ⟨hsize, hfree, hnext⟩ ih
    have hflag : decide (h.isFree a ≠ 0) = b.free := by
      rw [Bool.eq_iff_iff, decide_eq_true_eq]
      exact hfree
    rw [link_of_lt hlt, Heap.blocksFrom, if_neg (Nat.ne_of_gt hpos), hnext, hsize, hflag, ih]
    rfl

/-- Every used block is one that was handed out. -/
def AllLive (kernelHeap : KernelHeap) (s : HeapState) (bs : List Block) : Prop :=
  ∀ o b, At blockMetaSize bs o b → b.free = false →
    ∃ n, (kernelHeap.addr + o + blockMetaSize, n) ∈ s.live

namespace HeapInv

variable {kernelHeap : KernelHeap} {s s' : HeapState} {bs bs' : List Block} {p q n m : Nat}

theorem blockList_eq (h : HeapInv kernelHeap s bs) :
    s.heap.blockList = some (placed kernelHeap.addr bs) := by
  rw [Heap.blockList, h.head_link]
  exact blocksFrom_eq h.chain (by rw [← h.tiles]; rfl) kernelHeap.pos
    (Nat.lt_of_succ_lt h.length_lt)

/-- Two heaps with the same used blocks have the same block list. -/
theorem blockList_congr (h : HeapInv kernelHeap s bs) (h' : HeapInv kernelHeap s' bs')
    (hused : ∀ o c, c.free = false → (At blockMetaSize bs o c ↔ At blockMetaSize bs' o c)) :
    s.heap.blockList = s'.heap.blockList := by
  have heq : bs = bs' :=
    h.coalesced.eq_of_used (by decide) h'.coalesced (h.tiles.trans h'.tiles.symm) hused
  rw [h.blockList_eq, h'.blockList_eq, heq]

/-- `kmalloc` either changes nothing, or adds one used block, the one at the pointer that it
returns. -/
theorem kmalloc_used (h : HeapInv kernelHeap s bs) (size : UInt32) :
    s.heap.kmalloc size = some (s.heap, 0) ∨
    ∃ h' p bs', s.heap.kmalloc size = some (h', p) ∧ p ≠ 0 ∧
      HeapInv kernelHeap ⟨h', (p, size.toNat) :: s.live⟩ bs' ∧
      ∀ o c, c.free = false → (At blockMetaSize bs o c ↔
        At blockMetaSize bs' o c ∧ kernelHeap.addr + o + blockMetaSize ≠ p) := by
  rcases h.kmalloc_cases size with ⟨_, heq⟩ | ⟨o, bs', h', halloc, heq, _⟩
  · exact Or.inl heq
  obtain ⟨h'', p, heq', _, hinv⟩ := h.kmalloc_serve size
  obtain ⟨rfl, rfl⟩ := Prod.mk.inj (Option.some.inj (heq'.symm.trans heq))
  have hne : kernelHeap.addr + o + blockMetaSize ≠ 0 := Nat.succ_ne_zero _
  rw [serve, halloc, Option.elim_some, if_neg hne] at hinv
  obtain ⟨hold, b, hnew⟩ := at_allocate (by decide) halloc
  refine Or.inr ⟨_, _, bs', heq, hne, hinv, fun o' c hc => ?_⟩
  rw [hnew o' c hc]
  constructor
  · intro hat
    refine ⟨Or.inl hat, fun hptr => ?_⟩
    have hoo : o' = o := by omega
    rw [hoo] at hat
    rw [hold c hat] at hc
    cases hc
  · rintro ⟨hat | ⟨rfl, _⟩, hptr⟩
    · exact hat
    · exact absurd rfl hptr

/-! ## Inverses -/

/-- `kfree` of the pointer that `kmalloc` has just returned restores the block list. -/
theorem kfree_kmalloc (h : HeapInv kernelHeap s bs) {size : UInt32} {h' : Heap}
    (heq : s.heap.kmalloc size = some (h', p)) (hp : p ≠ 0) :
    ∃ h'', h'.kfree p = some h'' ∧ h''.blockList = s.heap.blockList := by
  rcases h.kmalloc_used size with hnull | ⟨h1, p1, bs1, heq1, _, hinv, hkeep⟩
  · obtain ⟨_, rfl⟩ := Prod.mk.inj (Option.some.inj (heq.symm.trans hnull))
    exact absurd rfl hp
  · obtain ⟨rfl, rfl⟩ := Prod.mk.inj (Option.some.inj (heq1.symm.trans heq))
    obtain ⟨h'', bs'', hfree, hinv', hrelease⟩ := hinv.kfree_release List.mem_cons_self
    refine ⟨h'', hfree, hinv'.blockList_congr h fun o c hc => ?_⟩
    rw [hrelease o c hc, hkeep o c hc]

/-- Freeing two live pointers, one after the other. -/
theorem kfree_twice (h : HeapInv kernelHeap s bs) (hp : (p, n) ∈ s.live) (hq : (q, m) ∈ s.live)
    (hne : q ≠ p) : ∃ h' live' bs', ((s.heap.kfree p).bind fun h => h.kfree q) = some h' ∧
      HeapInv kernelHeap ⟨h', live'⟩ bs' ∧ ∀ o c, c.free = false → (At blockMetaSize bs' o c ↔
        At blockMetaSize bs o c ∧ kernelHeap.addr + o + blockMetaSize ≠ p ∧
          kernelHeap.addr + o + blockMetaSize ≠ q) := by
  obtain ⟨h1, bs1, heq1, hinv1, hrel1⟩ := h.kfree_release hp
  have hq1 : (q, m) ∈ s.live.filter (·.1 ≠ p) := List.mem_filter.mpr ⟨hq, decide_eq_true hne⟩
  obtain ⟨h2, bs2, heq2, hinv2, hrel2⟩ := hinv1.kfree_release hq1
  refine ⟨h2, _, bs2, by rw [heq1]; exact heq2, hinv2, fun o c hc => ?_⟩
  rw [hrel2 o c hc, hrel1 o c hc, and_assoc]

/-- The order of two frees does not matter. -/
theorem kfree_comm (h : HeapInv kernelHeap s bs) (hp : (p, n) ∈ s.live) (hq : (q, m) ∈ s.live)
    (hne : q ≠ p) : ∃ hpq hqp, ((s.heap.kfree p).bind fun h => h.kfree q) = some hpq ∧
      ((s.heap.kfree q).bind fun h => h.kfree p) = some hqp ∧ hpq.blockList = hqp.blockList := by
  obtain ⟨hpq, _, bs1, heq1, hinv1, hrel1⟩ := h.kfree_twice hp hq hne
  obtain ⟨hqp, _, bs2, heq2, hinv2, hrel2⟩ := h.kfree_twice hq hp (Ne.symm hne)
  refine ⟨hpq, hqp, heq1, heq2, hinv1.blockList_congr hinv2 fun o c hc => ?_⟩
  rw [hrel1 o c hc, hrel2 o c hc, and_comm (b := _ ≠ q)]

/-- A heap without used blocks is one free block. -/
theorem blockList_of_empty (h : HeapInv kernelHeap s bs) (hall : AllLive kernelHeap s bs)
    (hlive : s.live = []) :
    s.heap.blockList = some [(kernelHeap.addr, heapSize - blockMetaSize, true)] := by
  have hone : Coalesced [⟨heapSize - blockMetaSize, true⟩] := List.isChain_singleton _
  have heq : bs = [⟨heapSize - blockMetaSize, true⟩] := by
    refine h.coalesced.eq_of_used (by decide) hone h.tiles fun o c hc => ?_
    constructor
    · intro hat
      obtain ⟨n, hn⟩ := hall o c hat hc
      rw [hlive] at hn
      cases hn
    · intro hat
      rw [(at_singleton.mp hat).2] at hc
      cases hc
  rw [h.blockList_eq, heq]
  rfl

theorem allLive_kfree {h' : Heap} (hall : AllLive kernelHeap s bs)
    (hrelease : ∀ o c, c.free = false → (At blockMetaSize bs' o c ↔
      At blockMetaSize bs o c ∧ kernelHeap.addr + o + blockMetaSize ≠ p)) :
    AllLive kernelHeap ⟨h', s.live.filter (·.1 ≠ p)⟩ bs' := by
  intro o c hat hc
  obtain ⟨hat, hne⟩ := (hrelease o c hc).mp hat
  obtain ⟨n, hn⟩ := hall o c hat hc
  exact ⟨n, List.mem_filter.mpr ⟨hn, decide_eq_true hne⟩⟩

/-- The live pointers can be freed in any order, and nothing is left. The induction is on that
order. -/
theorem kfree_all (h : HeapInv kernelHeap s bs) (hall : AllLive kernelHeap s bs) {order : List Nat}
    (horder : order.Perm (s.live.map Prod.fst)) : ∃ h', order.foldlM Heap.kfree s.heap = some h' ∧
      h'.blockList = some [(kernelHeap.addr, heapSize - blockMetaSize, true)] := by
  induction order generalizing s bs with
  | nil =>
    have hlive : s.live = [] := List.map_eq_nil_iff.mp horder.nil_eq.symm
    exact ⟨s.heap, rfl, h.blockList_of_empty hall hlive⟩
  | cons p order ih =>
    obtain ⟨b, hb, rfl⟩ := List.mem_map.mp (horder.mem_iff.mp List.mem_cons_self)
    obtain ⟨h1, bs1, heq1, hinv1, hrel1⟩ := h.kfree_release hb
    have hnodup := horder.nodup_iff.mpr h.nodup
    have hrest : order.Perm ((s.live.filter (·.1 ≠ b.1)).map Prod.fst) := by
      have hother : ∀ q, q ∈ order → decide (q ≠ b.1) = true := fun q hq =>
        decide_eq_true (ne_of_mem_of_not_mem hq (List.nodup_cons.mp hnodup).1)
      have hfilter := horder.filter (fun q => decide (q ≠ b.1))
      rwa [List.filter_map, List.filter_cons_of_neg (by simp),
        List.filter_eq_self.mpr hother] at hfilter
    obtain ⟨h', heq', hlist⟩ := ih hinv1 (allLive_kfree hall hrel1) hrest
    refine ⟨h', ?_, hlist⟩
    rw [List.foldlM_cons, heq1]
    exact heq'

end HeapInv

/-! ## Runs -/

/-- In every state of a run, the used blocks of the list are the live allocations. -/
theorem reachable_allLive {kernelHeap : KernelHeap} {s : HeapState}
    (h : (heapRuns kernelHeap).Reachable s) :
    ∃ bs, HeapInv kernelHeap s bs ∧ AllLive kernelHeap s bs := by
  refine h.invariant (P := fun s => ∃ bs, HeapInv kernelHeap s bs ∧ AllLive kernelHeap s bs) ?_ ?_
  · rintro s ⟨h0, rfl⟩
    refine ⟨_, HeapInv.init kernelHeap h0, fun o c hat hc => ?_⟩
    rw [(at_singleton.mp hat).2] at hc
    cases hc
  · rintro s action _ ⟨bs, hinv, hall⟩ hallowed
    cases action with
    | kmalloc size =>
      rcases hinv.kmalloc_used size with heq | ⟨h', p, bs', heq, hp, hinv', hkeep⟩
      · refine ⟨bs, ?_⟩
        simp only [heapRuns, HeapState.step, heq, if_true]
        exact ⟨hinv, hall⟩
      · refine ⟨bs', ?_⟩
        simp only [heapRuns, HeapState.step, heq, if_neg hp]
        refine ⟨hinv', fun o c hat hc => ?_⟩
        by_cases hop : kernelHeap.addr + o + blockMetaSize = p
        · exact ⟨size.toNat, hop ▸ List.mem_cons_self⟩
        · obtain ⟨n, hn⟩ := hall o c ((hkeep o c hc).mpr ⟨hat, hop⟩) hc
          exact ⟨n, List.mem_cons_of_mem _ hn⟩
    | kfree ptr =>
      rcases hallowed with rfl | ⟨n, hlive⟩
      · exact ⟨bs, hinv.kfree_null, HeapInv.allLive_kfree hall fun o c _ =>
          (and_iff_left (Nat.succ_ne_zero _)).symm⟩
      · obtain ⟨h', bs', heq, hinv', hrelease⟩ := hinv.kfree_release hlive
        refine ⟨bs', ?_⟩
        simp only [heapRuns, HeapState.step, heq]
        exact ⟨hinv', HeapInv.allLive_kfree hall hrelease⟩
    | write addr v => exact ⟨bs, hinv.write_step hallowed, hall⟩

/-- Frees undo allocations and commute. In every state of a run of `kmalloc`, valid `kfree` calls
and writes by the owners of the blocks,
* `kfree` of the pointer that a successful `kmalloc` returns restores the block list;
* two live pointers can be freed in either order, with the same block list;
* the live pointers can all be freed, in any order, and the initial block is left. -/
theorem run_heap_release {kernelHeap : KernelHeap} {s : HeapState}
    (h : (heapRuns kernelHeap).Reachable s) :
    (∃ blocks, s.heap.blockList = some blocks) ∧
    (∀ (size : UInt32) (h' : Heap) (p : Nat), s.heap.kmalloc size = some (h', p) → p ≠ 0 →
      ∃ h'', h'.kfree p = some h'' ∧ h''.blockList = s.heap.blockList) ∧
    (∀ p n q m, (p, n) ∈ s.live → (q, m) ∈ s.live → q ≠ p →
      ∃ hpq hqp, ((s.heap.kfree p).bind fun h => h.kfree q) = some hpq ∧
        ((s.heap.kfree q).bind fun h => h.kfree p) = some hqp ∧
        hpq.blockList = hqp.blockList) ∧
    ∀ order : List Nat, order.Perm (s.live.map Prod.fst) →
      ∃ h', order.foldlM Heap.kfree s.heap = some h' ∧
        h'.blockList = some [(kernelHeap.addr, heapSize - blockMetaSize, true)] := by
  obtain ⟨bs, hinv, hall⟩ := reachable_allLive h
  exact ⟨⟨_, hinv.blockList_eq⟩, fun _ _ _ heq hp => hinv.kfree_kmalloc heq hp,
    fun _ _ _ _ hp hq hne => hinv.kfree_comm hp hq hne,
    fun _ horder => hinv.kfree_all hall horder⟩

/-- An allocation of 100 bytes on a heap at the address 2 MB. -/
def sampleAllocation : HeapState :=
  HeapState.step ⟨Heap.initHeap ⟨0x200000, by decide, by decide, by decide⟩
    ⟨fun _ => 0, 0, 0, TraceRing.empty⟩, []⟩ (.kmalloc 100)

/-- The only allocation is freed. -/
theorem run_heap_release_sample : sampleAllocation.live = [(0x200000 + 12, 100)] ∧
    ∃ h', [0x200000 + 12].foldlM Heap.kfree sampleAllocation.heap = some h' ∧
      h'.blockList = some [(0x200000, heapSize - blockMetaSize, true)] := by
  have hinit : (heapRuns ⟨0x200000, by decide, by decide, by decide⟩).Reachable
      ⟨Heap.initHeap ⟨0x200000, by decide, by decide, by decide⟩
        ⟨fun _ => 0, 0, 0, TraceRing.empty⟩, []⟩ :=
    .init ⟨_, rfl⟩
  have hreach : (heapRuns ⟨0x200000, by decide, by decide, by decide⟩).Reachable sampleAllocation :=
    hinit.step (a := HeapAction.kmalloc 100) trivial
  obtain ⟨_, _, _, hfree⟩ := run_heap_release hreach
  have hlive : sampleAllocation.live = [(0x200000 + 12, 100)] := by decide +kernel
  exact ⟨hlive, hfree _ (by rw [hlive]; exact List.Perm.refl _)⟩

end Newrex
