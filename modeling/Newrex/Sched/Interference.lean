import Newrex.Sched.Context
import Newrex.Sched.Stores

/-!
# Timer ticks and the stores of `task_create`

A tick changes the states and stack pointers in the task records (`Switched`). The stores of
`task_create` up to the one that links the new task in keep the records (`Keeps`). Neither
sees what the other does: `prepareStores_insensitive`, and `Keeps.switchTo` for the ticks.
-/

namespace Newrex

open LittleEndian Interrupt Ring

namespace Sched

/-! ## What ticks change -/

/-- `s'` differs from `s` in what switching between the tasks `ts` changes only: the fields
`kstack` and `state` of their records, the current task, `esp0` and CR3. -/
structure Switched (ts : List Nat) (s s' : Sched) : Prop where
  mem : ∀ x, OutsideRecords ts x → s'.heap.mem x = s.heap.mem x
  field : ∀ u, u ∈ ts → ∀ f, f ≠ .kstack → f ≠ .state → s'.get u f = s.get u f
  head : s'.heap.heapHead = s.heap.heapHead
  total : s'.heap.totalBytesAllocated = s.heap.totalBytesAllocated
  trace : s'.heap.trace = s.heap.trace
  queue : s'.taskQueue = s.taskQueue
  pid : s'.nextPid = s.nextPid
  active : s'.schedulerActive = s.schedulerActive
  console : s'.console = s.console

/-- The step from `s` to `s'` keeps the bytes of the allocations `live`, and what `Switched`
leaves open. -/
structure Keeps (live : List (Nat × Nat)) (s s' : Sched) : Prop where
  bytes : ∀ p n, (p, n) ∈ live → ∀ x, p ≤ x → x < p + n → s'.heap.mem x = s.heap.mem x
  current : s'.currentTask = s.currentTask
  active : s'.schedulerActive = s.schedulerActive
  esp0 : s'.tssEsp0 = s.tssEsp0
  cr3 : s'.cr3 = s.cr3

section Relations

variable {ts : List Nat} {live : List (Nat × Nat)} {s s' s'' : Sched}

theorem Switched.equivalence (ts : List Nat) : Equivalence (Switched ts) where
  refl _ := ⟨fun _ _ => rfl, fun _ _ _ _ _ => rfl, rfl, rfl, rfl, rfl, rfl, rfl, rfl⟩
  symm h := ⟨fun x hx => (h.mem x hx).symm, fun u hu f hk hs => (h.field u hu f hk hs).symm,
    h.head.symm, h.total.symm, h.trace.symm, h.queue.symm, h.pid.symm, h.active.symm,
    h.console.symm⟩
  trans h h' := ⟨fun x hx => (h'.mem x hx).trans (h.mem x hx),
    fun u hu f hk hs => (h'.field u hu f hk hs).trans (h.field u hu f hk hs),
    h'.head.trans h.head, h'.total.trans h.total, h'.trace.trans h.trace, h'.queue.trans h.queue,
    h'.pid.trans h.pid, h'.active.trans h.active, h'.console.trans h.console⟩

theorem Keeps.refl (live : List (Nat × Nat)) (s : Sched) : Keeps live s s :=
  ⟨fun _ _ _ _ _ _ => rfl, rfl, rfl, rfl, rfl⟩

theorem Keeps.trans (h : Keeps live s s') (h' : Keeps live s' s'') : Keeps live s s'' :=
  ⟨fun p n hp x hlow hhigh => (h'.bytes p n hp x hlow hhigh).trans (h.bytes p n hp x hlow hhigh),
    h'.current.trans h.current, h'.active.trans h.active, h'.esp0.trans h.esp0,
    h'.cr3.trans h.cr3⟩

theorem Keeps.get (h : Keeps live s s') {t : Nat} (ht : (t, taskStructSize) ∈ live)
    (f : TaskField) : s'.get t f = s.get t f :=
  get_congr (h.bytes t taskStructSize ht) f

/-- A record consists of its fields. -/
theorem record_bytes {t x : Nat} (h : ∀ f, s'.get t f = s.get t f) (hlow : t ≤ x)
    (hhigh : x < t + taskStructSize) : s'.heap.mem x = s.heap.mem x := by
  obtain ⟨f, i, hi, rfl⟩ : ∃ (f : TaskField) (i : Nat), i < 4 ∧ x = t + f.offset + i := by
    have hcases : (x - t) / 4 < 7 := by
      unfold taskStructSize at hhigh
      omega
    refine ⟨[.pid, .state, .pageDirectory, .kstack, .kstackTopPage, .ustack, .next][(x - t) / 4],
      (x - t) % 4, Nat.mod_lt _ (by decide), ?_⟩
    have hoffset : ∀ j : Fin 7, ([TaskField.pid, .state, .pageDirectory, .kstack, .kstackTopPage,
        .ustack, .next][j.1]).offset = 4 * j.1 := by decide
    have := hoffset ⟨(x - t) / 4, hcases⟩
    dsimp only at this
    omega
  have hbyte := congrArg (fun v => byteOf v i) (h f)
  simp only [Sched.get, byteOf_load _ _ hi] at hbyte
  exact hbyte

/-- What `Switched` leaves open decides the state. -/
theorem Switched.eq (h : Switched ts s s') (hget : ∀ u, u ∈ ts → ∀ f, s'.get u f = s.get u f)
    (hcurrent : s'.currentTask = s.currentTask) (hesp0 : s'.tssEsp0 = s.tssEsp0)
    (hcr3 : s'.cr3 = s.cr3) : s' = s := by
  have hmem : s'.heap.mem = s.heap.mem := by
    funext x
    by_cases hx : OutsideRecords ts x
    · exact h.mem x hx
    · simp only [OutsideRecords, not_forall, not_or, Nat.not_lt, Nat.not_le] at hx
      obtain ⟨u, hu, hlow, hhigh⟩ := hx
      exact record_bytes (hget u hu) hlow hhigh
  obtain ⟨-, -, hhead, htotal, htrace, hqueue, hpid, hactive, hconsole⟩ := h
  obtain ⟨⟨_, _, _, _⟩, _, _, _, _, _, _, _⟩ := s
  obtain ⟨⟨_, _, _, _⟩, _, _, _, _, _, _, _⟩ := s'
  dsimp only at *
  subst hmem hhead htotal htrace hqueue hpid hactive hconsole hcurrent hesp0 hcr3
  rfl

end Relations

/-! ## Stores that ticks do not disturb -/

section Insensitive

variable {ts : List Nat} {live : List (Nat × Nat)} {s : Sched} {t p n : Nat}

/-- The `n` bytes at `a` belong to no allocation. -/
def Clear (live : List (Nat × Nat)) (a n : Nat) : Prop :=
  ∀ p m, (p, m) ∈ live → a + n ≤ p ∨ p + m ≤ a

theorem Clear.sub {a b m : Nat} (h : Clear live a n) (hlow : a ≤ b) (hhigh : b + m ≤ a + n) :
    Clear live b m := fun q k hq => by
  have := h q k hq
  omega

/-- The records are allocations. -/
def RecordsIn (live : List (Nat × Nat)) (ts : List Nat) : Prop :=
  ∀ u, u ∈ ts → (u, taskStructSize) ∈ live

theorem Clear.outside (h : Clear live p n) (hts : RecordsIn live ts) {x : Nat} (hlow : p ≤ x)
    (hhigh : x < p + n) : OutsideRecords ts x := fun u hu => by
  have := h u _ (hts u hu)
  omega

theorem storeMem_insensitive (hts : RecordsIn live ts) {v : Sched → Nat} (h : Clear live p n)
    (hv : ∀ s', Switched ts s s' → v s' = v s) :
    Insensitive (Switched ts) (Keeps live) (storeMem n p v) s := by
  refine Insensitive.write fun s' hs => ⟨?_, ?_⟩
  · refine ⟨fun x hx => ?_, fun u hu f hk hf => ?_, hs.head, hs.total, hs.trace, hs.queue, hs.pid,
      hs.active, hs.console⟩
    · show store s'.heap.mem n p (v s') x = store s.heap.mem n p (v s) x
      rw [hv s' hs]
      simp only [store]
      rw [hs.mem x hx]
    · have hout : ∀ s : Sched, (s.setMem (store s.heap.mem n p (v s))).get u f = s.get u f :=
        fun s => get_congr (fun x hlow hhigh => by
          have := h u _ (hts u hu)
          exact store_outside (by omega)) f
      rw [hout, hout, hs.field u hu f hk hf]
  · refine ⟨fun q m hq x hlow hhigh => ?_, rfl, rfl, rfl, rfl⟩
    have := h q m hq
    exact store_outside (by omega)

theorem storeField_insensitive (hts : RecordsIn live ts) (h : Clear live t taskStructSize)
    (f : TaskField) {v : Sched → Nat} (hv : ∀ s', Switched ts s s' → v s' = v s) :
    Insensitive (Switched ts) (Keeps live) (storeField t f v) s :=
  storeMem_insensitive hts (h.sub (Nat.le_add_right _ _) (by have := offset_lt f; omega)) hv

theorem memsetStores_insensitive (hts : RecordsIn live ts) (val : UInt8) {dest count : Nat}
    (h : Clear live dest count) :
    Insensitive (Switched ts) (Keeps live) (memsetStores val dest count) s := by
  induction count generalizing dest s with
  | zero => trivial
  | succ count ih =>
    exact (storeMem_insensitive hts (h.sub (Nat.le_refl _) (by omega)) fun _ _ => rfl).bind
      fun _ _ _ => ih (h.sub (by omega) (by omega))

theorem bytesStores_insensitive (hts : RecordsIn live ts) {a : Nat} {bytes : List UInt8}
    (h : Clear live a bytes.length) :
    Insensitive (Switched ts) (Keeps live) (bytesStores a bytes) s := by
  induction bytes generalizing a s with
  | nil => trivial
  | cons b bytes ih =>
    rw [List.length_cons] at h
    exact (storeMem_insensitive hts (h.sub (Nat.le_refl _) (by omega)) fun _ _ => rfl).bind
      fun _ _ _ => ih (h.sub (by omega) (by omega))

theorem pushStores_insensitive (hts : RecordsIn live ts) {page top : Nat} {words : List Nat}
    (h : Clear live page 4096) (hroom : page + 4 * words.length ≤ top) (htop : top ≤ page + 4096)
    (hrange : page + 4096 < 2 ^ 32) :
    Insensitive (Switched ts) (Keeps live) (pushStores top words) s := by
  induction words generalizing top s with
  | nil => trivial
  | cons v words ih =>
    rw [List.length_cons] at hroom
    have hsub : sub32 top 4 = top - 4 := sub32_of_le (by omega) (by omega)
    rw [pushStores_cons, hsub]
    exact (storeMem_insensitive hts (h.sub (by omega) (by omega)) fun _ _ => rfl).bind
      fun _ _ _ => ih (by omega) (by omega)

theorem newRecordStores_insensitive (hts : RecordsIn live ts) (h : Clear live t taskStructSize)
    (state pageDirectory : Nat) :
    Insensitive (Switched ts) (Keeps live) (newRecordStores t state pageDirectory) s := by
  refine (memsetStores_insensitive hts 0 h).bind fun _ _ _ => ?_
  refine (storeField_insensitive hts h .pid fun _ hs => hs.pid).bind fun _ _ _ => ?_
  refine (Insensitive.write fun s' hs => ⟨⟨hs.mem, hs.field, hs.head, hs.total, hs.trace, hs.queue,
    congrArg (add32 · 1) hs.pid, hs.active, hs.console⟩,
    ⟨fun _ _ _ _ _ _ => rfl, rfl, rfl, rfl, rfl⟩⟩).bind fun _ _ _ => ?_
  refine (storeField_insensitive hts h .state fun _ _ => rfl).bind fun _ _ _ => ?_
  exact storeField_insensitive hts h .pageDirectory fun _ _ => rfl

/-! ### Allocating -/

/-- A word that is outside of the records is read the same. -/
theorem Switched.load {s' : Sched} (h : Switched ts s s') (hts : RecordsIn live ts) {a : Nat}
    (hclear : Clear live a n) : load s'.heap.mem n a = load s.heap.mem n a :=
  load_congr fun i hi => h.mem _ (hclear.outside hts (by omega) (by omega))

/-- The header of a block is read the same. -/
theorem Switched.header {s' : Sched} (h : Switched ts s s') (hts : RecordsIn live ts) {a : Nat}
    (hclear : Clear live a 12) : s'.heap.size a = s.heap.size a ∧
      s'.heap.isFree a = s.heap.isFree a ∧ s'.heap.next a = s.heap.next a :=
  ⟨h.load hts (hclear.sub (Nat.le_refl _) (by omega)),
    h.load hts (hclear.sub (by omega) (by omega)), h.load hts (hclear.sub (by omega) (by omega))⟩

/-- Cutting a block writes to its header and to its payload. -/
theorem splitStores_insensitive (hts : RecordsIn live ts) {curr size room : Nat}
    (hsize : s.heap.size curr = room) (hfits : size ≤ room) (hsmall : room ≤ heapSize)
    (hclear : Clear live curr (12 + room)) (hrange : curr + 12 + room < 2 ^ 32) :
    Insensitive (Switched ts) (Keeps live) (splitStores curr size) s := by
  have hhead : Clear live curr 12 := hclear.sub (Nat.le_refl _) (by omega)
  unfold heapSize at hsmall
  refine (Insensitive.read (Keeps.refl live) fun s' hs => ?_).andThen rfl ?_
  · rw [(hs.header hts hhead).1]
  split
  next hlarge =>
    have h16 : add32 (add32 size blockMetaSize) 4 = size + 12 + 4 := by
      rw [blockMetaSize, add32_of_lt (a := size) (by omega), add32_of_lt (by omega)]
    have hroom : s.heap.size curr > add32 (add32 size blockMetaSize) 4 := of_decide_eq_true hlarge
    rw [h16, hsize] at hroom
    have hnew : add32 (add32 curr blockMetaSize) size = curr + 12 + size := by
      rw [blockMetaSize, add32_of_lt (a := curr) (by omega), add32_of_lt (by omega)]
    have hblock : Clear live (curr + 12 + size) 12 := hclear.sub (by omega) (by omega)
    rw [hnew]
    refine (storeMem_insensitive hts (hblock.sub (by omega) (by omega)) fun s' hs => ?_).bind
      fun _ _ _ => ?_
    · rw [(hs.header hts hhead).1]
    refine (storeMem_insensitive hts (hblock.sub (by omega) (by omega)) fun _ _ => rfl).bind
      fun _ _ _ => ?_
    refine (storeMem_insensitive hts (hblock.sub (by omega) (by omega)) fun s' hs => ?_).bind
      fun _ _ _ => ?_
    · exact (hs.header hts hhead).2.2
    refine (storeMem_insensitive hts (hhead.sub (by omega) (by omega)) fun _ _ => rfl).bind
      fun _ _ _ => ?_
    exact storeMem_insensitive hts (hhead.sub (by omega) (by omega)) fun _ _ => rfl
  next => exact Insensitive.pure _ _

theorem takeBlockStores_insensitive (hts : RecordsIn live ts) {curr size room : Nat}
    (hsize : s.heap.size curr = room) (hfits : size ≤ room) (hsmall : room ≤ heapSize)
    (hclear : Clear live curr (12 + room)) (hrange : curr + 12 + room < 2 ^ 32) :
    Insensitive (Switched ts) (Keeps live) (takeBlockStores curr size) s := by
  have hhead : Clear live curr 12 := hclear.sub (Nat.le_refl _) (by omega)
  refine (splitStores_insensitive hts hsize hfits hsmall hclear hrange).bind fun _ _ _ => ?_
  refine (storeMem_insensitive hts (hhead.sub (by omega) (by omega)) fun _ _ => rfl).bind
    fun _ _ _ => ?_
  refine (Insensitive.write fun s' hs => ⟨⟨hs.mem, hs.field, hs.head,
    congrArg (add32 · size) hs.total, hs.trace, hs.queue, hs.pid, hs.active, hs.console⟩,
    ⟨fun _ _ _ _ _ _ => rfl, rfl, rfl, rfl, rfl⟩⟩).bind fun _ _ _ => ?_
  refine (Insensitive.write fun s' hs => ⟨⟨hs.mem, hs.field, hs.head, hs.total,
    congrArg (sysTrace · (.ofLiteral "[MEM] Dynamic Heap Allocation")) hs.trace, hs.queue, hs.pid,
    hs.active, hs.console⟩, ⟨fun _ _ _ _ _ _ => rfl, rfl, rfl, rfl, rfl⟩⟩).bind fun _ _ _ => ?_
  exact Insensitive.pure _ _

variable {kernelHeap : KernelHeap} {all : List (Nat × Nat)} {bs : List BlockList.Block}

/-- The loop of `kmalloc` from the block behind `pre` on. -/
theorem kmallocLoopStores_insensitive (hts : RecordsIn live ts) (hlive : live ⊆ all)
    (hinv : HeapInv kernelHeap ⟨s.heap, all⟩ bs) {pre post : List BlockList.Block}
    (hsplit : bs = pre ++ post) (size fuel : Nat) :
    Insensitive (Switched ts) (Keeps live) (kmallocLoopStores size fuel
      (link (kernelHeap.addr + heapSize) (kernelHeap.addr + BlockList.extent 12 pre))) s := by
  have hfits := kernelHeap.fits
  have hpos := kernelHeap.pos
  have htiles : BlockList.extent 12 bs = heapSize := hinv.tiles
  induction fuel generalizing pre post with
  | zero => trivial
  | succ fuel ih =>
    cases post with
    | nil =>
      have hend : link (kernelHeap.addr + heapSize)
          (kernelHeap.addr + BlockList.extent 12 pre) = 0 := by
        rw [hsplit, List.append_nil] at htiles
        rw [link, htiles, if_pos rfl]
      rw [hend]
      exact Insensitive.pure _ _
    | cons b post =>
      have hat : BlockList.At blockMetaSize bs (BlockList.extent 12 pre) b :=
        ⟨pre, post, hsplit, rfl⟩
      have hlt := hat.lt
      rw [blockMetaSize, htiles] at hlt
      have hchain := hinv.chain
      rw [hsplit] at hchain
      obtain ⟨⟨hsize, hfree, hnext⟩, _⟩ := (Chain.append.mp hchain).2
      rw [link_of_lt (by omega)]
      generalize hcurr : kernelHeap.addr + BlockList.extent 12 pre = curr at *
      have hhead : Clear live curr 12 := fun p m hp => by
        have := hinv.payload_header (hlive hp) hat
        rw [blockMetaSize] at this
        omega
      have hne : curr ≠ 0 := by omega
      rw [kmallocLoopStores, if_neg hne]
      refine (Insensitive.read (Keeps.refl live) fun s' hs => ?_).andThen rfl ?_
      · obtain ⟨h1, h2, _⟩ := hs.header hts hhead
        rw [h1, h2]
      split
      next hfit =>
        obtain ⟨hisFree, hroom⟩ := of_decide_eq_true hfit
        rw [hsize] at hroom
        refine takeBlockStores_insensitive hts hsize hroom (by omega) (fun p m hp => ?_) (by omega)
        · have hblock := hfree.mp hisFree
          have := hinv.live_apart (hlive hp) hat (hinv.live_ne_free (hlive hp) hat hblock)
          rw [blockMetaSize] at this
          omega
      next =>
        refine (Insensitive.read (Keeps.refl live) fun s' hs => ?_).andThen rfl ?_
        · exact (hs.header hts hhead).2.2
        have hrest := @ih (pre ++ [b]) post (by rw [hsplit]; simp)
        have hextent : curr + BlockList.extent 12 [b] = curr + 12 + b.size := by
          rw [BlockList.extent, BlockList.extent]
          omega
        rw [BlockList.extent_append, ← Nat.add_assoc, hcurr, hextent] at hrest
        change Insensitive _ _ (kmallocLoopStores size fuel (s.heap.next curr)) s
        rw [show s.heap.next curr = _ from hnext]
        exact hrest

theorem kmallocStores_insensitive (hts : RecordsIn live ts) (hlive : live ⊆ all)
    (hinv : ∃ bs, HeapInv kernelHeap ⟨s.heap, all⟩ bs) (size : UInt32) :
    Insensitive (Switched ts) (Keeps live) (kmallocStores size) s := by
  obtain ⟨bs, hinv⟩ := hinv
  refine (Insensitive.read (Keeps.refl live) fun s' hs => hs.head).andThen rfl ?_
  have hhead : s.heap.heapHead = link (kernelHeap.addr + heapSize) kernelHeap.addr :=
    hinv.head_link
  show Insensitive _ _ (kmallocLoopStores _ _ s.heap.heapHead) s
  rw [hhead]
  exact kmallocLoopStores_insensitive hts hlive hinv (show bs = [] ++ bs from rfl) _ _

/-- A new block is apart from the older allocations. -/
theorem Grows.clear {s0 : Sched} {news : List (Nat × Nat)}
    (h : Grows kernelHeap s0 s live news) (hp : (p, n) ∈ news) : Clear live p n := fun _ _ hq =>
  h.apart (List.mem_append_left live hp) (List.mem_append_right news hq) (h.fresh hp hq)

theorem newUserStackStores_insensitive (hts : RecordsIn live ts) {s0 s1 : Sched}
    {news : List (Nat × Nat)} (h : Grows kernelHeap s0 s live news)
    (ht : (t, taskStructSize) ∈ news) {isUser : UInt32} {page top : Nat}
    (heq : s.newUserStack t isUser = some (s1, page, top)) (hne : isUser ≠ 0 → page ≠ 0) :
    Insensitive (Switched ts) (Keeps live) (newUserStackStores t isUser) s := by
  have hrecord := h.clear ht
  unfold newUserStackStores
  by_cases huser : isUser ≠ 0
  · obtain ⟨heap, hmalloc, _⟩ := newUserStack_user huser heq
    obtain ⟨hgrows, _⟩ := h.kmalloc hmalloc (hne huser) (by decide : _ = 4096)
    have hclear : Clear live page 4096 := hgrows.clear List.mem_cons_self
    have hrange := (hgrows.range List.mem_cons_self).2
    have hlen : exitTrampoline.length = 7 := rfl
    have htop : add32 page 4096 = page + 4096 := add32_of_lt hrange
    rw [if_pos huser]
    refine (kmallocStores_insensitive hts (List.subset_append_right news live) h.heap 4096).andThen
      (by rw [kmallocStores_run, hmalloc]; rfl) ?_
    refine (storeField_insensitive hts hrecord .ustack fun _ _ => rfl).bind fun _ _ _ => ?_
    refine (bytesStores_insensitive hts (hclear.sub (Nat.le_refl _) (by omega))).bind
      fun _ _ _ => ?_
    rw [htop]
    refine (pushStores_insensitive hts hclear (by simp) (Nat.le_refl _) hrange).bind fun _ _ _ => ?_
    exact Insensitive.pure _ _
  · rw [if_neg huser]
    refine (storeField_insensitive hts hrecord .ustack fun _ _ => rfl).bind fun _ _ _ => ?_
    exact Insensitive.pure _ _

/-- The record and the stacks of a new task are built apart from what ticks work on. -/
theorem newTaskStores_insensitive (hts : RecordsIn live ts) {s1 : Sched}
    {entry pageDir isUser : UInt32} {new : NewTask}
    (hheap : ∃ bs, HeapInv kernelHeap ⟨s.heap, live⟩ bs)
    (heq : s.newTask entry pageDir isUser = some (s1, new))
    (hok : CreatedTask.Allocated ⟨new, entry, isUser⟩) :
    Insensitive (Switched ts) (Keeps live) (newTaskStores entry pageDir isUser) s := by
  obtain ⟨h1, h2, s4, utop, hs⟩ := newTask_stages hheap heq hok
  obtain ⟨_, _, hu⟩ := hok
  obtain ⟨t, kpage, upage, frame⟩ := new
  dsimp only at hu hs
  have hrecord : Clear live t taskStructSize := hs.allocated.clear List.mem_cons_self
  have hpage : Clear live kpage 4096 := hs.paged.clear List.mem_cons_self
  have hrange := (hs.paged.range List.mem_cons_self).2
  have ht3 : (t, taskStructSize) ∈ [(kpage, 4096), (t, taskStructSize)] := by simp
  have htop : add32 kpage 4096 = kpage + 4096 := add32_of_lt hrange
  have hlen := initialFrame_length_le entry isUser utop
  refine (kmallocStores_insensitive hts (List.Subset.refl live) hheap 28).andThen
    (by rw [kmallocStores_run, hs.mallocRecord]; rfl) ?_
  refine (newRecordStores_insensitive hts hrecord _ _).andThen (newRecordStores_run _ _ _ _) ?_
  refine (kmallocStores_insensitive hts (List.subset_append_right _ live) hs.filled.heap 4096).andThen
    (by rw [kmallocStores_run, hs.mallocPage]; rfl) ?_
  refine (storeField_insensitive hts hrecord .kstackTopPage fun _ _ => rfl).andThen
    (storeField_run _ _ _ _) ?_
  refine (newUserStackStores_insensitive hts hs.ready ht3 hs.userStack hu).andThen
    ((newUserStackStores_run _ _ _).trans hs.userStack) ?_
  refine Insensitive.bind ?_ fun _ _ _ => Insensitive.pure _ _
  show Insensitive _ _ (fillKernelStackStores t kpage (initialFrame entry isUser utop)) _
  unfold fillKernelStackStores
  rw [htop]
  refine (pushStores_insensitive hts hpage (by omega) (Nat.le_refl _) hrange).bind fun _ _ _ => ?_
  refine (storeField_insensitive hts hrecord .kstack fun _ _ => rfl).bind fun _ _ _ => ?_
  exact Insensitive.pure _ _

theorem lastLoopStores_insensitive {fuel curr : Nat}
    (hclosed : ∀ u, u ∈ ts → s.get u .next ∈ ts) (hcurr : curr ∈ ts) :
    Insensitive (Switched ts) (Keeps live) (lastLoopStores fuel curr) s := by
  induction fuel generalizing curr with
  | zero => trivial
  | succ fuel ih =>
    refine (Insensitive.read (Keeps.refl live) fun s' hs => ?_).andThen rfl ?_
    · rw [hs.field curr hcurr .next (by decide) (by decide), hs.queue]
    split
    · exact ih (hclosed curr hcurr)
    · exact Insensitive.pure _ _

theorem lastStores_insensitive (hclosed : ∀ u, u ∈ ts → s.get u .next ∈ ts)
    (hqueue : s.taskQueue ∈ ts) : Insensitive (Switched ts) (Keeps live) lastStores s := by
  refine (Insensitive.read (Keeps.refl live) fun s' hs => hs.queue).andThen rfl ?_
  split
  · exact Insensitive.pure _ _
  · exact (lastLoopStores_insensitive hclosed hqueue).bind fun _ _ _ => Insensitive.pure _ _

end Insensitive

/-! ## Switching in two states -/

section Switching

variable {ts : List Nat} {live : List (Nat × Nat)} {s s' : Sched} {esp next : Nat}

theorem Switched.set (h : Switched ts s s') (hapart : RecordsApart ts) {t v : Nat} (ht : t ∈ ts)
    (f : TaskField) (hv : v < 2 ^ 32) : Switched ts (s.set t f v) (s'.set t f v) := by
  refine ⟨fun x hx => ?_, fun u hu g hk hs => ?_, h.head, h.total, h.trace, h.queue, h.pid,
    h.active, h.console⟩
  · rw [set_outside (hx t ht), set_outside (hx t ht), h.mem x hx]
  · rw [get_set hapart ht hu hv, get_set hapart ht hu hv, h.field u hu g hk hs]

theorem switchTo_switched (hapart : RecordsApart ts) (hcur : s.currentTask ∈ ts)
    (hnext : next ∈ ts) (hesp : esp < 2 ^ 32) : Switched ts s (s.switchTo esp next) := by
  have heff := switchTo_effect hapart hcur hnext hesp
  obtain ⟨hpid, hconsole, htotal, htrace⟩ := (s.set s.currentTask .kstack esp).dispatch_rest next
  rw [switchTo] at heff ⊢
  exact ⟨heff.mem, heff.field, heff.head, htotal, htrace, heff.queue, hpid, heff.active, hconsole⟩

/-- Two states agree on what a switch between the tasks reads, apart from the links. -/
structure SameTasks (ts : List Nat) (s s' : Sched) : Prop where
  field : ∀ u, u ∈ ts → ∀ f, f ≠ .next → s'.get u f = s.get u f
  current : s'.currentTask = s.currentTask
  active : s'.schedulerActive = s.schedulerActive
  cr3 : s'.cr3 = s.cr3

theorem SameTasks.runnable (h : SameTasks ts s s') {u : Nat} (hu : u ∈ ts) :
    s'.runnable u = s.runnable u :=
  runnable_congr (h.field u hu .state (by decide))

/-- Then they agree after a switch to the same task. -/
theorem SameTasks.switchTo (h : SameTasks ts s s') (hapart : RecordsApart ts)
    (hcur : s.currentTask ∈ ts) (hnext : next ∈ ts) (hesp : esp < 2 ^ 32) :
    SameTasks ts (s.switchTo esp next) (s'.switchTo esp next) ∧
      (s'.switchTo esp next).tssEsp0 = (s.switchTo esp next).tssEsp0 := by
  have hcur' : s'.currentTask ∈ ts := by
    rw [h.current]
    exact hcur
  have heff : SwitchEffect s (s.switchTo esp next) ts esp next :=
    switchTo_effect hapart hcur hnext hesp
  have heff' : SwitchEffect s' (s'.switchTo esp next) ts esp next :=
    switchTo_effect hapart hcur' hnext hesp
  have hfield : ∀ u, u ∈ ts → ∀ f, f ≠ .next →
      (s'.switchTo esp next).get u f = (s.switchTo esp next).get u f := by
    intro u hu f hf
    by_cases hk : f = .kstack
    · subst hk
      rw [heff.kstack u hu, heff'.kstack u hu, h.current, h.field u hu .kstack (by decide)]
    · by_cases hs : f = .state
      · subst hs
        rw [heff.state u hu, heff'.state u hu, h.current, h.field u hu .state (by decide)]
      · rw [heff.field u hu f hk hs, heff'.field u hu f hk hs, h.field u hu f hf]
  have hdir : ∀ s : Sched, s.currentTask ∈ ts → (s.switchTo esp next).cr3 =
      if s.get next .pageDirectory ≠ 0 ∧ s.get next .pageDirectory ≠ s.cr3 then
        s.get next .pageDirectory
      else s.cr3 := by
    intro s hcur
    have hread : (s.set s.currentTask .kstack esp).get next .pageDirectory =
        s.get next .pageDirectory := by
      rw [get_set hapart hcur hnext hesp, if_neg (by simp)]
    have hcr3 := dispatch_cr3 (s := s.set s.currentTask .kstack esp) hapart hcur hnext
    rw [hread] at hcr3
    rw [Sched.switchTo]
    exact hcr3
  refine ⟨⟨hfield, heff'.current.trans heff.current.symm, ?_, ?_⟩, ?_⟩
  · rw [heff'.active, heff.active, h.active]
  · rw [hdir s hcur, hdir s' hcur', h.field next hnext .pageDirectory (by decide), h.cr3]
  · rw [heff'.esp0, heff.esp0, hfield next hnext .kstackTopPage (by decide)]

theorem Keeps.sameTasks (h : Keeps live s s') (hts : RecordsIn live ts) : SameTasks ts s s' :=
  ⟨fun u hu f _ => h.get (hts u hu) f, h.current, h.active, h.cr3⟩

/-- A tick in the middle of `task_create` does what it would have done before the call. -/
theorem Keeps.switchTo (h : Keeps live s s') (hts : RecordsIn live ts) (hapart : RecordsApart ts)
    (hcur : s.currentTask ∈ ts) (hnext : next ∈ ts) (hesp : esp < 2 ^ 32) :
    Keeps live (s.switchTo esp next) (s'.switchTo esp next) := by
  obtain ⟨hsame, hesp0⟩ := (h.sameTasks hts).switchTo hapart hcur hnext hesp
  have hcur' : s'.currentTask ∈ ts := by
    rw [h.current]
    exact hcur
  have hs := switchTo_switched hapart hcur hnext hesp
  have hs' := switchTo_switched hapart hcur' hnext hesp
  refine ⟨fun p n hp x hlow hhigh => ?_, hsame.current, hsame.active, hesp0, hsame.cr3⟩
  by_cases hx : OutsideRecords ts x
  · rw [hs.mem x hx, hs'.mem x hx, h.bytes p n hp x hlow hhigh]
  · simp only [OutsideRecords, not_forall, not_or, Nat.not_lt, Nat.not_le] at hx
    obtain ⟨u, hu, hulow, huhigh⟩ := hx
    refine record_bytes (fun f => ?_) hulow huhigh
    by_cases hf : f = .next
    · subst hf
      rw [hs.field u hu .next (by decide) (by decide), hs'.field u hu .next (by decide) (by decide),
        h.get (hts u hu)]
    · exact hsame.field u hu f hf

/-- Two states that keep the same, and differ in what switching changes, are equal. -/
theorem Switched.eq_of_keeps {s1 s2 : Sched} (h : Switched ts s1 s2) (hts : RecordsIn live ts)
    (h1 : Keeps live s s1) (h2 : Keeps live s s2) : s2 = s1 :=
  h.eq (fun u hu f => (h2.get (hts u hu) f).trans (h1.get (hts u hu) f).symm)
    (h2.current.trans h1.current.symm) (h2.esp0.trans h1.esp0.symm) (h2.cr3.trans h1.cr3.symm)

end Switching

end Sched

namespace RingInv

variable {kernelHeap : KernelHeap} {s : SchedState}

theorem recordsIn (h : RingInv kernelHeap s) : Sched.RecordsIn s.live s.tasks := fun _ hu =>
  h.owned _ (task_block s hu)

/-- The stores of `task_create` in front of the link do not depend on ticks. -/
theorem prepareStores_insensitive (h : RingInv kernelHeap s) {entry pageDir isUser : UInt32}
    {sched : Sched} {new : Sched.NewTask}
    (hnew : s.sched.newTask entry pageDir isUser = some (sched, new))
    (hok : CreatedTask.Allocated ⟨new, entry, isUser⟩) :
    Insensitive (Sched.Switched s.tasks) (Sched.Keeps s.live)
      (Sched.prepareStores entry pageDir isUser) s.sched := by
  obtain ⟨hgrows, _⟩ := Sched.newTask_effect h.heap hnew hok
  refine (Sched.newTaskStores_insensitive h.recordsIn h.heap hnew hok).andThen
    ((Sched.newTaskStores_run _ _ _ _).trans hnew) ?_
  refine Insensitive.bind (Sched.lastStores_insensitive (fun u hu => ?_) ?_) fun _ _ _ =>
    Insensitive.pure _ _
  · rw [Sched.get_congr (hgrows.bytes _ _ (h.recordsIn u hu)) .next]
    exact h.next_mem hu
  · rw [hgrows.queue, h.queue]
    exact List.mem_cons_self

end RingInv

end Newrex
