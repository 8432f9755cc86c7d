import Newrex.Exec.Basic
import Newrex.RexFS.Hex
import Newrex.Sched.Context

/-!
# Programs load exactly

A program typed in with `writehex` and started with `exec`. The bytes take the way through
the hex decoder, the block writer, the loading loop and the heap buffer, and the header is
read back from memory.

* `rexfsExec_accepts`: the model of `rexfs_exec` for the file system agrees with the one that
  has the memory.
* `writehex_exec_exact` is the result.
-/

namespace Newrex

open LittleEndian RexFS

/-- The bytes of the image in memory. -/
def Kernel.bufferBytes (k : Kernel) (image : Image) : List UInt8 :=
  (List.range image.size.toNat).map fun i => k.sched.heap.mem (image.codeBuffer + i)

/-- The little-endian word at offset 6 of a program. -/
def nexEntry (code : List UInt8) : Nat := (code.getD 6 0).toNat + 256 * (code.getD 7 0).toNat

section Header

variable {k : Kernel} {image : Image} {code : List UInt8}

theorem storeBytes_getD (m : Nat → UInt8) (off : Nat) (bytes : List UInt8) (i : Nat) :
    storeBytes m off bytes (off + i) = bytes.getD i (m (off + i)) := by
  by_cases hi : i < bytes.length
  · rw [storeBytes_inside hi, List.getD_eq_getElem _ _ hi, List.getD_eq_getElem _ _ hi]
  · rw [storeBytes_outside (by omega), List.getD_eq_default _ _ (by omega)]

/-- The buffer after the loading loop: the bytes of the file, and behind a missing block what
was there before. -/
theorem loadBlocks_mem (k : Kernel) (ino : NrInode) (codeBuffer i : Nat) :
    (k.loadBlocks ino codeBuffer).sched.heap.mem (codeBuffer + i) =
      (fileBytes k.fs.disk ino).1.getD i (k.sched.heap.mem (codeBuffer + i)) :=
  storeBytes_getD _ _ _ i

theorem bufferBytes_getD (h : k.bufferBytes image = code) {i : Nat} (hi : i < image.size.toNat) :
    k.sched.heap.mem (image.codeBuffer + i) = code.getD i 0 := by
  rw [← h, Kernel.bufferBytes, List.getD_eq_getElem _ _ (by simpa using hi)]
  simp

theorem bufferBytes_magic (h : k.bufferBytes image = code) (hsize : 8 ≤ image.size.toNat) :
    k.magic image = code.take 4 := by
  have htake : (List.range image.size.toNat).take 4 = List.range 4 := by
    rw [List.take_range, Nat.min_eq_left (by omega)]
  rw [← h, Kernel.bufferBytes, ← List.map_take, htake]
  rfl

theorem bufferBytes_entry (h : k.bufferBytes image = code) (hsize : 8 ≤ image.size.toNat) :
    k.entryOffset image = nexEntry code := by
  have h6 := bufferBytes_getD h (i := 6) (by omega)
  have h7 := bufferBytes_getD h (i := 7) (by omega)
  have hword : k.entryOffset image = (k.sched.heap.mem (image.codeBuffer + 6)).toNat +
      256 * ((k.sched.heap.mem (image.codeBuffer + 7)).toNat + 256 * 0) := rfl
  rw [hword, h6, h7, nexEntry]
  omega

/-- The header tests, in terms of the bytes of the program. -/
theorem accepts_iff (h : k.bufferBytes image = code) (hsize : 8 ≤ image.size.toNat) :
    k.Accepts image ↔ code.take 4 = nexMagic ∧ nexEntry code < image.size.toNat := by
  rw [Kernel.Accepts, bufferBytes_magic h hsize, bufferBytes_entry h hsize]

end Header

/-! ## The two models of `rexfs_exec` -/

/-- The model without memory, given the buffer that `kmalloc` returned and what it held,
accepts the same images with the same entry points. -/
theorem rexfsExec_accepts {kernelHeap : KernelHeap} {T : Tasking} (hT : T.Inv kernelHeap)
    {k k1 : Kernel} (hk : k.sched = T.sched) {filename : CString} {image : Image}
    (h : k.execLoad filename = some (k1, some image)) :
    ∃ old, (k1.Accepts image ↔ ∃ nex,
        (k.fs.rexfsExec filename (UInt32.ofNat image.codeBuffer) old).2 = some nex) ∧
      ∀ nex, (k.fs.rexfsExec filename (UInt32.ofNat image.codeBuffer) old).2 = some nex →
        nex.code = k1.bufferBytes image ∧ nex.entryOffset = k1.entryOffset image := by
  obtain ⟨hinv, _⟩ := execLoad_effect hT hk h
  obtain ⟨bs, hheap⟩ := hinv.heapInv
  rw [Tasking.withHeap_live] at hheap
  have hrange := hheap.live_range List.mem_cons_self
  have hbuffer : UInt32.ofNat image.codeBuffer ≠ 0 := by
    intro h0
    have h0' := congrArg UInt32.toNat h0
    rw [UInt32.toNat_ofNat', Nat.mod_eq_of_lt (by omega)] at h0'
    exact absurd h0' (Nat.ne_of_gt hrange.1)
  obtain ⟨slot, heap, hloads, hsize, _, _, rfl⟩ := execLoad_some h
  have hlarge : ¬ image.size < 8 := by
    intro hlt
    rw [hloads.execLoad_short (by rw [← hsize]; exact hlt)] at h
    simp at h
  refine ⟨fun i => heap.mem (image.codeBuffer + i), ?_⟩
  -- the bytes that the model reads are those of the buffer
  have hbyte : ∀ i, (fileBytes k.fs.disk (k.fs.disk.inode slot)).1.getD i
      (heap.mem (image.codeBuffer + i)) = ((k.setHeap heap).loadBlocks (k.fs.disk.inode slot)
        image.codeBuffer).sched.heap.mem (image.codeBuffer + i) := fun i =>
    (loadBlocks_mem (k.setHeap heap) _ _ i).symm
  simp only [rexfsExec, hloads.mounted, hloads.named, hloads.file, hbuffer, hbyte,
    Bool.not_true, Bool.false_eq_true, if_false, ← hsize, if_neg hlarge]
  generalize (k.setHeap heap).loadBlocks (k.fs.disk.inode slot) image.codeBuffer = k1
  have hmagic : k1.magic image = [k1.sched.heap.mem (image.codeBuffer + 0),
      k1.sched.heap.mem (image.codeBuffer + 1), k1.sched.heap.mem (image.codeBuffer + 2),
      k1.sched.heap.mem (image.codeBuffer + 3)] := rfl
  have hentry : k1.entryOffset image = (k1.sched.heap.mem (image.codeBuffer + 6)).toNat +
      256 * (k1.sched.heap.mem (image.codeBuffer + 7)).toNat := rfl
  rw [← hmagic, ← hentry, Kernel.Accepts, nexMagic]
  by_cases hm : k1.magic image = [78, 69, 88, 33]
  · rw [if_neg (not_not_intro hm)]
    by_cases he : image.size.toNat ≤ k1.entryOffset image
    · rw [if_pos he]
      exact ⟨⟨fun h => absurd he (Nat.not_le.mpr h.2), fun ⟨_, h⟩ => by cases h⟩,
        fun _ h => by cases h⟩
    · rw [if_neg he]
      refine ⟨⟨fun _ => ⟨_, rfl⟩, fun _ => ⟨hm, Nat.lt_of_not_le he⟩⟩, fun nex h => ?_⟩
      cases h
      exact ⟨rfl, rfl⟩
  · rw [if_pos hm]
    exact ⟨⟨fun h => absurd h.1 hm, fun ⟨_, h⟩ => by cases h⟩, fun _ h => by cases h⟩

/-! ## From `writehex` to `exec` -/

/-- Starting what was loaded: whether a task is created, and what its first run is. -/
theorem execLoad_start {kernelHeap : KernelHeap} {T : Tasking} (hT : T.Inv kernelHeap)
    {k k1 : Kernel} (hk : k.sched = T.sched) {filename : CString} {image : Image}
    (hload : k.execLoad filename = some (k1, some image)) {stackSpace : Nat}
    (hmem : k1.StartMemory image stackSpace) :
    ∃ task k2, k1.execStart image stackSpace = some (k2, task) ∧
      (task.isSome = true ↔ k1.Accepts image) ∧
      ∀ t, task = some t → ∃ c : CreatedTask, c.new.addr = t ∧ c.isUser = 1 ∧
        c.entry.toNat = image.codeBuffer + k1.entryOffset image ∧
        k2.sched.get t .state = taskReady ∧
        FirstRun k2.sched.heap.mem c (k2.sched.get t .kstack) ∧
        c.new.ustackPage + 4096 < 2 ^ 32 := by
  obtain ⟨hinv, hsched, _⟩ := execLoad_effect hT hk hload
  have hk1 : k1.sched =
      (T.withHeap k1.sched.heap ([(image.codeBuffer, image.size.toNat)] ++ T.live)).sched := by
    rw [Tasking.withHeap_sched]
    exact hsched
  obtain ⟨bs, hheap⟩ := hinv.heapInv
  rw [Tasking.withHeap_live, ← hk1] at hheap
  have hbuffer : (image.codeBuffer, image.size.toNat) ∈
      [(image.codeBuffer, image.size.toNat)] ++ T.live := List.mem_cons_self
  by_cases haccepts : k1.Accepts image
  · obtain ⟨s, _, hring, ⟨_, new', hnew', hok⟩, sched, new, hnew, hstart⟩ :=
      execStart_effect hinv hk1 haccepts hmem
    obtain ⟨rfl, rfl⟩ := Prod.mk.inj (Option.some.inj (hnew.symm.trans hnew'))
    obtain ⟨_, _, hready, hkstack, hbuilt⟩ := ContextInv.create_new hring hnew hok
    have hstack := ((Sched.newTask_effect hring.heap hnew hok).1.range
      (by simp [CreatedTask.blocks] : (new.ustackPage, 4096) ∈ _)).2
    have hrange := (hheap.live_range hbuffer).2
    have hentry := haccepts.2
    refine ⟨_, _, hstart, ⟨fun _ => haccepts, fun _ => rfl⟩, fun t ht => ?_⟩
    cases ht
    refine ⟨⟨new, k1.entryAddr image, 1⟩, rfl, rfl, ?_, hready, ?_, hstack⟩
    · show (k1.entryAddr image).toNat = _
      rw [Kernel.entryAddr, UInt32.toNat_ofNat', Nat.mod_eq_of_lt (by omega)]
    · rw [hkstack]
      exact hbuilt.firstRun
  · obtain ⟨_, _, _, heap, _, _, _, hfree, _⟩ := hheap.kfree_live hbuffer
    obtain ⟨text, hstart⟩ := @execStart_refused _ _ stackSpace haccepts _ hfree
    exact ⟨none, _, hstart, ⟨fun h => absurd h (by decide), fun h => absurd h haccepts⟩,
      fun _ h => by cases h⟩

/-- What `rexfs_writehex` leaves in the file system. -/
theorem writehex_stored {capacity : UInt32} (hcap : 11 ≤ capacity) {st : RexFS}
    (h : (formattedRuns capacity).Reachable st) (hmounted : st.fsMounted = true)
    {name hex : CString} {slot : Slot}
    (hfile : st.disk.findInode (·.isEntryOf 1 st.currentDirId name.chars) = some slot)
    (hspace : 32 ∉ name.chars) (hlen : name.chars.length ≤ 27) {code : List UInt8}
    (hmax : code.length ≤ 136192) (hhex : HexSpells code hex.chars)
    (hroom : blocksWithIndex (blocksNeeded code.length) ≤
      st.disk.freeCount (st.activeSb.totalBlocks.toNat - 11) +
        (st.disk.blocksOf (st.disk.inode slot)).length)
    {binBuf : UInt32} (hbuf : binBuf ≠ 0) :
    ∃ st', (st.rexfsWritehex (writeArgs name hex) binBuf).1 = st' ∧ st'.fsMounted = true ∧
      st'.disk.findInode (·.isEntryOf 1 st'.currentDirId name.chars) = some slot ∧
      (st'.disk.inode slot).size = UInt32.ofNat code.length ∧
      fileBytes st'.disk (st'.disk.inode slot) = (code, false) := by
  have hlive := (isEntryOf_iff.mp (Disk.findInode_some hfile).1).1
  have hargs : (writeArgs name hex).chars ≠ [] := by rw [writeArgs_chars]; simp
  have hpayload := payloadOf_writeArgs hspace hlen hhex.head
  have hres : Op.resolved st (.writehex (writeArgs name hex) binBuf) = some slot := by
    simp only [Op.resolved, hmounted, hargs, hpayload, filenameOf_writeArgs hspace hlen, ne_eq,
      not_false_eq_true, Option.isSome_some, and_self, if_true]
    exact hfile
  have hcode : Op.payload (.writehex (writeArgs name hex) binBuf) = code := by
    simp only [Op.payload, hpayload, Option.getD_some, parseHexBytes_spelled hhex]
  rcases rexfsWritehex_resolved hres with ⟨h0, _⟩ | ⟨_, odd, heq⟩
  · exact absurd h0 hbuf
  · obtain ⟨hdisk, hmount, hoob⟩ := hexParsed_facts st slot odd
    obtain ⟨st', hst', hmount', hfind, hsize, hread⟩ := storePayload_stored hcap
      (reachable_sound hcap h) hlive "Error: Payload exceeds maximum file size (133 KB).\n"
      "Hex file written successfully.\n" hdisk hmount hoob hmax hroom
    rw [heq, hcode]
    refine ⟨st', hst', by rw [hmount']; exact hmounted, ?_, ?_, hread⟩
    · rw [hfind, hmount']
      exact hfile
    · refine UInt32.toNat.inj ?_
      rw [hsize, UInt32.toNat_ofNat_of_le hmax]

/-- Programs load exactly. In every mounted state of a run, `code` of at most 136192 bytes is
written in hexadecimal to an existing file that can hold it, and the file is started in any
state of the heap and the scheduler.
* Less than 8 bytes are refused before memory is allocated or a header read.
* Otherwise, with a buffer from `kmalloc`, the buffer holds `code`. With memory for the task, a
  task is created if and only if `code` starts with `NEX!` and the word at offset 6 is below
  its length. It is a user task, and its first run starts at the buffer plus that word. -/
theorem writehex_exec_exact {capacity : UInt32} (hcap : 11 ≤ capacity) {st : RexFS}
    (h : (formattedRuns capacity).Reachable st) (hmounted : st.fsMounted = true)
    {name hex : CString} {slot : Slot}
    (hfile : st.disk.findInode (·.isEntryOf 1 st.currentDirId name.chars) = some slot)
    (hname : name.chars ≠ []) (hspace : 32 ∉ name.chars) (hlen : name.chars.length ≤ 27)
    {code : List UInt8} (hmax : code.length ≤ 136192) (hhex : HexSpells code hex.chars)
    (hroom : blocksWithIndex (blocksNeeded code.length) ≤
      st.disk.freeCount (st.activeSb.totalBlocks.toNat - 11) +
        (st.disk.blocksOf (st.disk.inode slot)).length)
    {binBuf : UInt32} (hbuf : binBuf ≠ 0)
    {kernelHeap : KernelHeap} {T : Tasking} (hT : T.Reachable kernelHeap) (stackSpace : Nat) :
    let k : Kernel := ⟨(st.rexfsWritehex (writeArgs name hex) binBuf).1, T.sched⟩
    (code.length < 8 → k.execLoad name = some (k.printStringColor
      "Error: File is too small to be an executable.\n" colorLightRed, none)) ∧
    (8 ≤ code.length → ∀ heap codeBuffer,
      T.sched.heap.kmalloc (UInt32.ofNat code.length) = some (heap, codeBuffer) →
      codeBuffer ≠ 0 →
      ∃ k1, let image : Image := ⟨codeBuffer, UInt32.ofNat code.length⟩
        k.execLoad name = some (k1, some image) ∧ k1.bufferBytes image = code ∧
        (k1.StartMemory image stackSpace →
          ∃ k2 task, k1.execStart image stackSpace = some (k2, task) ∧
            (task.isSome = true ↔ code.take 4 = nexMagic ∧ nexEntry code < code.length) ∧
            ∀ t, task = some t → ∃ c : CreatedTask, c.new.addr = t ∧ c.isUser = 1 ∧
              c.entry.toNat = codeBuffer + nexEntry code ∧ nexEntry code < code.length ∧
              k2.sched.get t .state = taskReady ∧
              FirstRun k2.sched.heap.mem c (k2.sched.get t .kstack))) := by
  have hinv := hT.inv
  obtain ⟨st', hst', hm', hfile', hsize, hread⟩ :=
    writehex_stored hcap h hmounted hfile hspace hlen hmax hhex hroom hbuf
  rw [hst']
  intro k
  have hloads : Loads k name slot := ⟨hm', hname, hfile'⟩
  have hnat := UInt32.toNat_ofNat_of_le hmax
  have h8 : (8 : UInt32).toNat = 8 := rfl
  constructor
  · intro hshort
    refine hloads.execLoad_short ?_
    rw [UInt32.lt_iff_toNat_lt, hsize, hnat, h8]
    exact hshort
  · intro hlong heap codeBuffer hmalloc hne
    have hlarge : ¬ (k.fs.disk.inode slot).size < 8 := by
      rw [UInt32.lt_iff_toNat_lt, hsize, hnat, h8]
      omega
    have hload := hloads.execLoad_eq hlarge (by rw [hsize]; exact hmalloc) hne
    rw [hsize] at hload
    -- the loop stores the bytes of the file, which fill the buffer
    have hcode : ((k.setHeap heap).loadBlocks (k.fs.disk.inode slot) codeBuffer).bufferBytes
        ⟨codeBuffer, UInt32.ofNat code.length⟩ = code := by
      refine List.ext_getElem ?_ fun i hi hi' => ?_
      · rw [Kernel.bufferBytes, List.length_map, List.length_range, hnat]
      · simp only [Kernel.bufferBytes, List.getElem_map, List.getElem_range, loadBlocks_mem]
        show (fileBytes st'.disk (st'.disk.inode slot)).1.getD i _ = _
        rw [hread, List.getD_eq_getElem _ _ hi']
    generalize (k.setHeap heap).loadBlocks (k.fs.disk.inode slot) codeBuffer = k1 at hload hcode
    refine ⟨k1, hload, hcode, fun hmem => ?_⟩
    obtain ⟨task, k2, hstart, hiff, hnew⟩ := execLoad_start hinv rfl hload hmem
    have hsize8 : 8 ≤ (UInt32.ofNat code.length).toNat := by omega
    rw [accepts_iff hcode hsize8, hnat] at hiff
    refine ⟨k2, task, hstart, hiff, fun t ht => ?_⟩
    obtain ⟨c, hc, huser, hentry, hready, hrun, _⟩ := hnew t ht
    refine ⟨c, hc, huser, ?_, (hiff.mp (by rw [ht]; rfl)).2, hready, hrun⟩
    rw [hentry, bufferBytes_entry hcode hsize8]

/-! ### A program -/

theorem startMemory_of_any {k : Kernel} {image : Image} {stackSpace : Nat}
    (h : (k.activeSched stackSpace).any (fun sched => decide (sched.currentTask ≠ 0) &&
      (sched.newTask (k.entryAddr image) 0 1).any fun r =>
        decide (CreatedTask.Allocated ⟨r.2, k.entryAddr image, 1⟩)) = true) :
    k.StartMemory image stackSpace := by
  obtain ⟨sched, hactive, h⟩ := (Option.any_eq_true _ _).mp h
  obtain ⟨hne, h⟩ := Bool.and_eq_true_iff.mp h
  obtain ⟨⟨sched', new⟩, hnew, hok⟩ := (Option.any_eq_true _ _).mp h
  exact ⟨sched, hactive, of_decide_eq_true hne, sched', new, hnew, of_decide_eq_true hok⟩

theorem some_get_pair {α β : Type} {o : Option (α × β)} (h : o.isSome = true) {b : β}
    (hb : (o.get h).2 = b) : o = some ((o.get h).1, b) := by
  rw [← hb]
  exact (Option.some_get h).symm

/-- A program of one instruction, `ret`. -/
def sampleProgram : List UInt8 := nexMagic ++ [1, 0, 8, 0, 0xC3]

/-- The kernel before `init_scheduler`, with the program in the file `b`. -/
def sampleTasking : Tasking := .boot ⟨sampleBoot.heap, []⟩ 0 0 []

theorem sampleTasking_reachable : sampleTasking.Reachable sampleHeap := .init ⟨_, rfl⟩

def sampleKernel : Kernel :=
  ⟨(sampleRun.rexfsWritehex (writeArgs (.ofBuffer [98]) (.ofLiteral "4e455821 01000800 c3"))
    0x100000).1, sampleTasking.sched⟩

theorem sampleKernel_loads : (sampleKernel.execLoad (.ofBuffer [98])).isSome = true := by
  decide +kernel

/-- The kernel with the program in memory. -/
def sampleLoaded : Kernel := ((sampleKernel.execLoad (.ofBuffer [98])).get sampleKernel_loads).1

theorem sampleLoaded_memory : sampleLoaded.StartMemory ⟨0x10000C, 9⟩ 0x5000 :=
  startMemory_of_any (by decide +kernel)

theorem writehex_exec_sample :
    sampleLoaded.bufferBytes ⟨0x10000C, 9⟩ = sampleProgram ∧
      ∃ k2 task, sampleLoaded.execStart ⟨0x10000C, 9⟩ 0x5000 = some (k2, task) ∧
        task.isSome = true := by
  have hfile : sampleRun.disk.findInode
      (·.isEntryOf 1 sampleRun.currentDirId (CString.ofBuffer [98]).chars) = some 1 := by
    decide +kernel
  have hspells : HexSpells sampleProgram (CString.ofLiteral "4e455821 01000800 c3").chars :=
    .byte 0 (by decide) (by decide) <| .byte 0 (by decide) (by decide) <|
      .byte 0 (by decide) (by decide) <| .byte 1 (by decide) (by decide) <|
      .byte 0 (by decide) (by decide) <| .byte 0 (by decide) (by decide) <|
      .byte 0 (by decide) (by decide) <| .byte 1 (by decide) (by decide) <|
      .byte 0 (by decide) (by decide) .nil
  have hbuf : (0x100000 : UInt32) ≠ 0 := by decide
  have hexact := writehex_exec_exact (by decide) sampleRun_reachable (by decide +kernel) hfile
    (by decide) (by decide) (by decide) (by decide) hspells (by decide +kernel) hbuf
    sampleTasking_reachable 0x5000
  obtain ⟨heap, hmalloc⟩ : ∃ heap,
      sampleTasking.sched.heap.kmalloc (UInt32.ofNat sampleProgram.length) =
        some (heap, 0x10000C) := by
    have hany : (sampleTasking.sched.heap.kmalloc (UInt32.ofNat sampleProgram.length)).any
        (fun r => r.2 = 0x10000C) = true := by decide +kernel
    obtain ⟨⟨heap, p⟩, heq, hp⟩ := (Option.any_eq_true _ _).mp hany
    obtain rfl : p = 0x10000C := of_decide_eq_true hp
    exact ⟨heap, heq⟩
  obtain ⟨k1, hload, hcode, hstart⟩ := hexact.2 (by decide) heap _ hmalloc (by decide)
  have hk1 : sampleLoaded = k1 := by
    have hget := Option.some_get sampleKernel_loads
    exact congrArg Prod.fst (Option.some.inj (hget.trans hload))
  rw [hk1]
  obtain ⟨k2, task, heq, hiff, _⟩ := hstart (by rw [← hk1]; exact sampleLoaded_memory)
  exact ⟨hcode, k2, task, heq, hiff.mpr (by decide)⟩

end Newrex
