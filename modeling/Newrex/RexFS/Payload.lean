import Mathlib.Data.List.FinRange
import Newrex.RexFS.Blocks

/-!
# RexFS: the allocation loop

What `writeBlocks` leaves behind. The loop builds the inode of a file block by
block; its invariant `Filled` says that

* the inode lists the data blocks `bs` in order, the first ten directly and the
  others in the indirect block `ind` (`Layout`);
* relative to the disk `d0` before the loop, exactly these blocks and `ind` were
  allocated, and no other sector was written (`Allocates`);
* block `j` holds chunk `j` of the payload.

`writeBlocks_logged` is the result of the whole loop. Apart from success there are
two ways out: no block for the next chunk, and no block for the indirect index.
The second one leaks the data block that was just written.
-/

namespace Newrex

open RexFS

/-! ## How an inode lists its blocks -/

/-- The indirect block as a list: 0 means that there is none. -/
def tableOf (ind : Nat) : List Nat := if ind = 0 then [] else [ind]

/-- The inode lists the data blocks `bs`, with the indirect block `ind`. -/
structure Layout (d : Disk) (ino : NrInode) (bs : List Nat) (ind : Nat) : Prop where
  len : bs.length ≤ 266
  blocks : ∀ b, b ∈ bs → b ≠ 0 ∧ b < 65536
  direct : ∀ k : Fin 10, ino.directBlocks k = UInt16.ofNat (bs.getD k 0)
  indirect : ino.indirectBlock = UInt16.ofNat ind
  ind_lt : ind < 65536
  short : ind = 0 → bs.length ≤ 10
  table : ind ≠ 0 → ∀ k, k < 256 → (d ind).pointer k = UInt16.ofNat (bs.getD (10 + k) 0)

theorem getD_push (l : List Nat) (b j : Nat) :
    (l ++ [b]).getD j 0 = if j = l.length then b else l.getD j 0 := by
  rcases Nat.lt_trichotomy j l.length with h | h | h
  · rw [if_neg (by omega)]
    simp only [List.getD, List.getElem?_append_left h]
  · rw [if_pos h, h]
    simp [List.getD]
  · have hlen : (l ++ [b]).length ≤ j := by
      rw [List.length_append, List.length_singleton]
      omega
    rw [if_neg (by omega)]
    simp only [List.getD, List.getElem?_eq_none hlen, List.getElem?_eq_none (Nat.le_of_lt h)]

/-- A table of `n` pointers filled from the front lists a prefix. -/
theorem pointerRefs_prefix {l : List Nat} (hl : ∀ b, b ∈ l → b ≠ 0 ∧ b < 65536) (n : Nat) :
    pointerRefs ((List.range n).map fun k => UInt16.ofNat (l.getD k 0)) = l.take n := by
  induction n with
  | zero => rfl
  | succ n ih =>
    have happ : ∀ as bs, pointerRefs (as ++ bs) = pointerRefs as ++ pointerRefs bs := by
      intro as bs
      simp [pointerRefs]
    have hlast : pointerRefs [UInt16.ofNat (l.getD n 0)] = l[n]?.toList := by
      cases hn : l[n]? with
      | none => simp [pointerRefs, List.getD, hn]
      | some b =>
        have hb := hl b (List.mem_of_getElem? hn)
        have hval : (UInt16.ofNat b).toNat = b := by
          rw [UInt16.toNat_ofNat']
          omega
        simp only [pointerRefs, List.getD, hn, Option.getD_some, List.map_cons, List.map_nil, hval,
          Option.toList_some]
        rw [List.filter_cons_of_pos (by simpa using hb.1), List.filter_nil]
    rw [List.range_succ, List.map_append, happ, ih, List.map_singleton, hlast, List.take_add_one]

namespace Layout

variable {d d' : Disk} {ino : NrInode} {bs : List Nat} {ind b : Nat}

/-- The nonzero pointers of the inode are the listed blocks and the indirect
block. -/
theorem blocksOf_eq (h : Layout d ino bs ind) : d.blocksOf ino = bs ++ tableOf ind := by
  have hind : ino.indirectBlock.toNat = ind := by
    rw [h.indirect, UInt16.toNat_ofNat']
    have := h.ind_lt
    omega
  have hdirect : pointerRefs (List.ofFn ino.directBlocks) = bs.take 10 := by
    rw [← pointerRefs_prefix h.blocks 10, List.ofFn_eq_map, ← List.map_coe_finRange_eq_range,
      List.map_map]
    congr 1
    exact List.map_congr_left fun k _ => h.direct k
  unfold Disk.blocksOf tableOf
  rw [hdirect]
  by_cases h0 : ind = 0
  · have hz : ino.indirectBlock = 0 := by rw [h.indirect, h0]; rfl
    rw [if_pos hz, if_pos h0, List.take_of_length_le (h.short h0)]
  · have hz : ino.indirectBlock ≠ 0 := fun hz => h0 (by rw [← hind, hz]; rfl)
    have hdrop : ∀ b, b ∈ bs.drop 10 → b ≠ 0 ∧ b < 65536 :=
      fun b hb => h.blocks b (List.mem_of_mem_drop hb)
    have htable : pointerRefs (d ind).pointers = bs.drop 10 := by
      have hlen := h.len
      have hall : bs.drop 10 = (bs.drop 10).take 256 := by
        rw [List.take_of_length_le (by rw [List.length_drop]; omega)]
      rw [hall, ← pointerRefs_prefix hdrop 256, Sector.pointers]
      congr 1
      refine List.map_congr_left fun k hk => ?_
      rw [h.table h0 k (List.mem_range.mp hk)]
      simp only [List.getD, List.getElem?_drop]
    rw [if_neg hz, if_neg h0, hind, htable, ← List.append_assoc, List.take_append_drop]

theorem nil (d : Disk) (ino : NrInode) : Layout d (clearPointers ino) [] 0 where
  len := Nat.zero_le _
  blocks := by simp
  direct := by intro k; rfl
  indirect := rfl
  ind_lt := by decide
  short := fun _ => Nat.zero_le _
  table := fun h => absurd rfl h

/-- The layout depends on the disk only through the indirect block. -/
theorem congr (h : Layout d ino bs ind) (heq : ind ≠ 0 → d' ind = d ind) :
    Layout d' ino bs ind :=
  { h with table := fun h0 k hk => by rw [heq h0]; exact h.table h0 k hk }

theorem mem_push (h : Layout d ino bs ind) (hb : b ≠ 0 ∧ b < 65536) :
    ∀ c, c ∈ bs ++ [b] → c ≠ 0 ∧ c < 65536 := by
  intro c hc
  rcases List.mem_append.mp hc with hc | hc
  · exact h.blocks c hc
  · rw [List.mem_singleton.mp hc]
    exact hb

/-- `inode.direct_blocks[k] = b` for the next block number `k < 10`. -/
theorem pushDirect (h : Layout d ino bs 0) (hk : bs.length < 10) (hb : b ≠ 0 ∧ b < 65536) :
    Layout d (setDirect ino bs.length b) (bs ++ [b]) 0 where
  len := by rw [List.length_append, List.length_singleton]; omega
  blocks := h.mem_push hb
  direct := by
    intro j
    simp only [setDirect, getD_push]
    split
    · rfl
    · exact h.direct j
  indirect := h.indirect
  ind_lt := h.ind_lt
  short := fun _ => by rw [List.length_append, List.length_singleton]; omega
  table := fun h0 => absurd rfl h0

/-- A fresh zeroed indirect block for an inode with all ten direct blocks. -/
theorem addTable (h : Layout d ino bs 0) (hk : bs.length = 10) (hi : ind < 65536)
    (hzero : d' ind = Sector.zero) :
    Layout d' { ino with indirectBlock := UInt16.ofNat ind } bs ind where
  len := h.len
  blocks := h.blocks
  direct := h.direct
  indirect := rfl
  ind_lt := hi
  short := fun _ => by omega
  table := by
    intro _ k hk'
    have hlen : bs.length ≤ 10 + k := by omega
    rw [hzero, Sector.pointer_zero, List.getD, List.getElem?_eq_none hlen]
    rfl

/-- `indirect_buf[k - 10] = b` for the next block number `k ≥ 10`. -/
theorem pushTable (h : Layout d ino bs ind) (h0 : ind ≠ 0) (hk : 10 ≤ bs.length)
    (hlen : bs.length < 266) (hb : b ≠ 0 ∧ b < 65536)
    (hset : d' ind = (d ind).setPointer (bs.length - 10) (UInt16.ofNat b)) :
    Layout d' ino (bs ++ [b]) ind where
  len := by rw [List.length_append, List.length_singleton]; omega
  blocks := h.mem_push hb
  direct := by
    intro j
    rw [h.direct j, getD_push, if_neg (by omega)]
  indirect := h.indirect
  ind_lt := h.ind_lt
  short := fun hz => absurd hz h0
  table := by
    intro _ k hk'
    rw [hset, Sector.pointer_setPointer _ _ hk', getD_push]
    split
    · rw [if_pos (by omega)]
    · rw [if_neg (by omega), h.table h0 k hk']

end Layout

/-! ## The loop invariant -/

/-- Chunk `j` of the payload as it is written to a block. -/
def chunkOf (data : List UInt8) (j : Nat) : Sector :=
  chunkSector data (512 * j) (min (data.length - 512 * j) 512)

/-- The number of payload bytes in the first `k` blocks. -/
def bytesIn (data : List UInt8) (k : Nat) : Nat := min (512 * k) data.length

/-- The loop invariant, relative to the disk `d0` in front of the loop. The blocks
`leak` are allocated but not (yet) listed in the inode. -/
structure Filled (limit : Nat) (data : List UInt8) (d0 d : Disk) (ino : NrInode) (bs : List Nat)
    (ind : Nat) (leak : List Nat) : Prop where
  layout : Layout d ino bs ind
  alloc : Allocates limit d0 d (bs ++ tableOf ind ++ leak)
  chunks : ∀ j (h : j < bs.length), d bs[j] = chunkOf data j

namespace Filled

variable {limit : Nat} {data : List UInt8} {d0 d : Disk} {ino : NrInode} {bs leak : List Nat}
  {ind b : Nat}

theorem nil (limit : Nat) (data : List UInt8) (d : Disk) (ino : NrInode) :
    Filled limit data d d (clearPointers ino) [] 0 [] :=
  ⟨Layout.nil d ino, Allocates.refl limit d, fun j h => absurd h (Nat.not_lt_zero j)⟩

theorem ind_mem (h0 : ind ≠ 0) : ind ∈ bs ++ tableOf ind ++ leak := by
  simp [tableOf, h0]

/-- Allocating a block adds it to the unlisted ones. -/
theorem allocate (h : Filled limit data d0 d ino bs ind leak) {idx : Nat} {buf : Sector}
    (hidx : idx < 4096) (hlim : idx < limit) (hclear : d.bit idx = false)
    (hbuf : ∀ j, j < 4096 → buf.bit j = (d.bit j || decide (j = idx))) :
    Filled limit data d0 (Function.update d 10 buf) ino bs ind ((11 + idx) :: leak) where
  layout := by
    refine h.layout.congr fun h0 => ?_
    have := (h.alloc.range ind (ind_mem h0)).1
    exact Function.update_of_ne (by omega) _ _
  alloc := (h.alloc.alloc hidx hlim hclear hbuf).perm List.perm_middle.symm
  chunks := by
    intro j hj
    have hmem : bs[j] ∈ bs ++ tableOf ind ++ leak := by
      rw [List.append_assoc]
      exact List.mem_append_left _ (List.getElem_mem hj)
    have := (h.alloc.range _ hmem).1
    rw [Function.update_of_ne (by omega)]
    exact h.chunks j hj

/-- A write into an unlisted block keeps the invariant. -/
theorem write (h : Filled limit data d0 d ino bs ind leak) (hb : b ∈ leak) (buf : Sector) :
    Filled limit data d0 (Function.update d b buf) ino bs ind leak := by
  have hmem : b ∈ bs ++ tableOf ind ++ leak := List.mem_append_right _ hb
  have hapart := (List.nodup_append.mp h.alloc.nodup).2.2
  refine ⟨?_, h.alloc.write hmem buf, ?_⟩
  · refine h.layout.congr fun h0 => ?_
    have hne : ind ≠ b := hapart ind (by simp [tableOf, h0]) b hb
    exact Function.update_of_ne hne _ _
  · intro j hj
    have hne : bs[j] ≠ b := hapart _ (List.mem_append_left _ (List.getElem_mem hj)) b hb
    rw [Function.update_of_ne hne]
    exact h.chunks j hj

theorem leak_small (h : Filled limit data d0 d ino bs ind leak) (hb : b ∈ leak) :
    b ≠ 0 ∧ b < 65536 := by
  have := h.alloc.range b (List.mem_append_right _ hb)
  omega

theorem push_chunk (h : Filled limit data d0 d ino bs ind leak) {d' : Disk}
    (hold : ∀ c, c ∈ bs → d' c = d c) (hnew : d' b = chunkOf data bs.length) :
    ∀ j (hj : j < (bs ++ [b]).length), d' (bs ++ [b])[j] = chunkOf data j := by
  intro j hj
  by_cases hlt : j < bs.length
  · rw [List.getElem_append_left hlt, hold _ (List.getElem_mem hlt)]
    exact h.chunks j hlt
  · have hj' : j = bs.length := by
      rw [List.length_append, List.length_singleton] at hj
      omega
    subst hj'
    rw [List.getElem_append_right (Nat.le_refl _)]
    simpa using hnew

/-- Listing the unlisted block `b` as a direct block. -/
theorem listDirect (h : Filled limit data d0 d ino bs 0 [b]) (hk : bs.length < 10)
    (hchunk : d b = chunkOf data bs.length) :
    Filled limit data d0 d (setDirect ino bs.length b) (bs ++ [b]) 0 [] where
  layout := h.layout.pushDirect hk (h.leak_small List.mem_cons_self)
  alloc := by
    have := h.alloc
    simpa [tableOf] using this
  chunks := h.push_chunk (fun _ _ => rfl) hchunk

/-- An unlisted, zeroed block becomes the indirect block. -/
theorem addTable (h : Filled limit data d0 d ino bs 0 (ind :: leak)) (hk : bs.length = 10)
    (hzero : d ind = Sector.zero) :
    Filled limit data d0 d { ino with indirectBlock := UInt16.ofNat ind } bs ind leak := by
  have hsmall := h.leak_small List.mem_cons_self
  refine ⟨h.layout.addTable hk hsmall.2 hzero, ?_, h.chunks⟩
  have := h.alloc
  simpa [tableOf, hsmall.1] using this

/-- Listing the unlisted block `b` in the indirect block. -/
theorem listTable (h : Filled limit data d0 d ino bs ind [b]) (h0 : ind ≠ 0)
    (hk : 10 ≤ bs.length) (hlen : bs.length < 266) (hchunk : d b = chunkOf data bs.length) :
    Filled limit data d0
      (Function.update d ind ((d ind).setPointer (bs.length - 10) (UInt16.ofNat b))) ino
      (bs ++ [b]) ind [] := by
  have htab : tableOf ind = [ind] := if_neg h0
  have halloc := h.alloc
  rw [htab] at halloc
  have hnd := halloc.nodup
  have hne : ∀ c, c ∈ bs → c ≠ ind := by
    intro c hc
    rw [List.append_assoc] at hnd
    exact (List.nodup_append.mp hnd).2.2 c hc ind (by simp)
  have hbind : b ≠ ind := by
    have := (List.nodup_append.mp hnd).2.2 ind (by simp) b (by simp)
    exact Ne.symm this
  refine ⟨?_, ?_, ?_⟩
  · exact h.layout.pushTable h0 hk hlen (h.leak_small List.mem_cons_self)
      (Function.update_self _ _ _)
  · have hw := halloc.write (b := ind) (by simp)
      ((d ind).setPointer (bs.length - 10) (UInt16.ofNat b))
    rw [htab, List.append_nil]
    refine hw.perm ?_
    rw [List.append_assoc, List.append_assoc]
    exact (List.Perm.refl bs).append (List.Perm.swap b ind [])
  · refine h.push_chunk (fun c hc => Function.update_of_ne (hne c hc) _ _) ?_
    rw [Function.update_of_ne hbind, hchunk]

end Filled

/-! ## The whole loop -/

/-- `b` is `a` with other block pointers. -/
def SameMeta (a b : NrInode) : Prop :=
  ∃ db ib, b = { a with directBlocks := db, indirectBlock := ib }

theorem SameMeta.refl (a : NrInode) : SameMeta a a := ⟨a.directBlocks, a.indirectBlock, rfl⟩

theorem SameMeta.trans {a b c : NrInode} (h1 : SameMeta a b) (h2 : SameMeta b c) :
    SameMeta a c := by
  obtain ⟨_, _, rfl⟩ := h1
  obtain ⟨db, ib, rfl⟩ := h2
  exact ⟨db, ib, rfl⟩

/-- No block below `limit` is free. -/
def Full (limit : Nat) (d : Disk) : Prop := ∀ j, j < 4096 → j < limit → d.bit j = true

/-- How the loop over `n` blocks ended: with all of them written, out of space for
the next chunk, or out of space for the indirect index at block 10. -/
inductive WriteOutcome (limit : Nat) (data : List UInt8) (n : Nat) (d : Disk) (bytesWritten : Nat)
    (bs leak : List Nat) : Prop
  | complete : bs.length = n → leak = [] → bytesWritten = bytesIn data n →
      WriteOutcome limit data n d bytesWritten bs leak
  | noBlock : bs.length < n → leak = [] → Full limit d → bytesWritten = bytesIn data bs.length →
      WriteOutcome limit data n d bytesWritten bs leak
  | noIndex : bs.length = 10 → 10 < n → leak.length = 1 → Full limit d →
      bytesWritten = bytesIn data 11 → WriteOutcome limit data n d bytesWritten bs leak

/-- What the loop over `n` blocks leaves: `r` is its state, inode and
`bytesWritten`, started in `st` with the inode `ino` on the disk `d0`. -/
structure Wrote (limit : Nat) (data : List UInt8) (n : Nat) (d0 : Disk) (st : RexFS) (ino : NrInode)
    (r : RexFS × NrInode × Nat) (bs : List Nat) (ind : Nat) (leak : List Nat) : Prop where
  filled : Filled limit data d0 r.1.disk r.2.1 bs ind leak
  short : ind = 0 ↔ bs.length ≤ 10
  mount : r.1.toMountState = st.toMountState
  bounds : r.1.outOfBounds = st.outOfBounds
  sameMeta : SameMeta ino r.2.1
  outcome : WriteOutcome limit data n r.1.disk r.2.2 bs leak

theorem Wrote.of_step {limit n : Nat} {data : List UInt8} {d0 : Disk} {st st' : RexFS}
    {ino ino' : NrInode} {r : RexFS × NrInode × Nat} {bs leak : List Nat} {ind : Nat}
    (h : Wrote limit data n d0 st' ino' r bs ind leak) (hmount : st'.toMountState = st.toMountState)
    (hbounds : st'.outOfBounds = st.outOfBounds) (hmeta : SameMeta ino ino') :
    Wrote limit data n d0 st ino r bs ind leak :=
  { h with
    mount := h.mount.trans hmount
    bounds := h.bounds.trans hbounds
    sameMeta := hmeta.trans h.sameMeta }

/-- `bytesWritten` stays at the start of the next chunk, so that the chunk written
for block `k` is chunk `k`. -/
theorem chunkSector_bytesIn (data : List UInt8) (k : Nat) :
    chunkSector data (bytesIn data k) (min (data.length - bytesIn data k) 512) = chunkOf data k := by
  unfold chunkOf bytesIn
  by_cases h : 512 * k ≤ data.length
  · rw [Nat.min_eq_left h]
  · have h1 : data.length - min (512 * k) data.length = 0 := by omega
    have h2 : data.length - 512 * k = 0 := by omega
    rw [h1, h2]
    funext j
    simp [chunkSector]

theorem bytesIn_succ (data : List UInt8) (k : Nat) :
    bytesIn data k + min (data.length - bytesIn data k) 512 = bytesIn data (k + 1) := by
  unfold bytesIn
  omega

/-- The disk once a block is marked and written. -/
theorem allocated_write_disk (st : RexFS) {idx : Nat} (hidx : idx < 4096) (buf b : Sector) :
    ((st.writeSector 10 buf).writeSector (11 + idx) b).disk =
      Function.update (Function.update st.disk 10 buf) (11 + idx) b :=
  writeSector_disk _ (by omega) b

/-- `ensureIndirect` with the unlisted data block `b`: either the disk is full and
nothing changes, or there is an indirect block afterwards and `b` is still as it
was written. -/
theorem ensureIndirect_cases {limit : Nat} {data : List UInt8} {d0 : Disk} {st : RexFS}
    {ino : NrInode} {bs : List Nat} {ind b : Nat} (hoff : st.activeSb.dataOffset = 11)
    (hlim : blockLimit st.activeSb = limit) (hF : Filled limit data d0 st.disk ino bs ind [b])
    (hk : 10 ≤ bs.length) (hind : ind = 0 ↔ bs.length ≤ 10) :
    (∃ st', st.ensureIndirect ino = (st', none) ∧ st'.disk = st.disk ∧
      st'.toMountState = st.toMountState ∧ st'.outOfBounds = st.outOfBounds ∧
      ind = 0 ∧ Full limit st.disk ∧
      st'.out = st.out ++
        [.literal "Error: Out of disk space for indirect index.\n" colorLightRed]) ∨
    ∃ st' ino' ind', st.ensureIndirect ino = (st', some ino') ∧ ind' ≠ 0 ∧
      ino'.indirectBlock.toNat = ind' ∧ Filled limit data d0 st'.disk ino' bs ind' [b] ∧
      st'.disk b = st.disk b ∧ st'.toMountState = st.toMountState ∧
      st'.outOfBounds = st.outOfBounds ∧ SameMeta ino ino' ∧ st'.out = st.out := by
  by_cases h0 : ind = 0
  · subst h0
    have hlen : bs.length = 10 := by have := hind.mp rfl; omega
    have hino : ino.indirectBlock = 0 := hF.layout.indirect
    rcases allocateFreeBlock_cases st hoff with ⟨heq, hfull⟩ |
      ⟨idx, buf, hidx, hidxlim, hclear, _, hbuf, heq⟩
    · rw [hlim] at hfull
      refine Or.inl ⟨st.printStringColor "Error: Out of disk space for indirect index.\n"
        colorLightRed, ?_, rfl, rfl, rfl, rfl, hfull, rfl⟩
      simp only [ensureIndirect, hino, if_true, heq]
    · have hne : ¬ 11 + idx = 0 := by omega
      rw [hlim] at hidxlim
      have hF2 := (hF.allocate hidx hidxlim hclear hbuf).write (b := 11 + idx)
        List.mem_cons_self Sector.zero
      have hF3 := hF2.addTable hlen (Function.update_self _ _ _)
      have hapart : b ≠ 11 + idx := by
        have hnd := (List.nodup_append.mp hF2.alloc.nodup).2.1
        exact fun hc => (List.nodup_cons.mp hnd).1 (by simp [hc])
      have hb10 : b ≠ 10 := by
        have := (hF.alloc.range b (by simp)).1
        omega
      rw [← allocated_write_disk st hidx] at hF3
      refine Or.inr ⟨(st.writeSector 10 buf).writeSector (11 + idx) Sector.zero, _, 11 + idx, ?_, hne,
        ?_, hF3, ?_, rfl, rfl, ⟨_, _, rfl⟩, rfl⟩
      · simp only [ensureIndirect, hino, if_true, heq, hne, if_false]
      · show (UInt16.ofNat (11 + idx)).toNat = 11 + idx
        rw [UInt16.toNat_ofNat']
        omega
      · rw [allocated_write_disk st hidx, Function.update_of_ne hapart, Function.update_of_ne hb10]
  · have hlt := hF.layout.ind_lt
    have hval : ino.indirectBlock.toNat = ind := by
      rw [hF.layout.indirect, UInt16.toNat_ofNat']
      omega
    have hino : ¬ ino.indirectBlock = 0 := fun h => h0 (by rw [← hval, h]; rfl)
    refine Or.inr ⟨st, ino, ind, ?_, h0, hval, hF, rfl, rfl, rfl, SameMeta.refl ino, rfl⟩
    simp only [ensureIndirect, hino, if_false]

/-- What the loop over `n` blocks prints: one of its two messages, unless it wrote them
all. -/
def loopMessages (n : Nat) (bs leak : List Nat) : List Print :=
  if bs.length = n then []
  else if leak = [] then [.literal "Error: Out of disk space.\n" colorLightRed]
  else [.literal "Error: Out of disk space for indirect index.\n" colorLightRed]

/-- The loop keeps `Filled`, ends in one of the three ways and says so. The induction is on
the number of blocks left. -/
theorem writeBlocks_logged {limit N : Nat} {data : List UInt8} {d0 : Disk} (n k : Nat) (st : RexFS)
    (ino : NrInode) (bs : List Nat) (ind : Nat) (hoff : st.activeSb.dataOffset = 11)
    (hlim : blockLimit st.activeSb = limit) (hF : Filled limit data d0 st.disk ino bs ind [])
    (hk : bs.length = k) (hN : k + n = N) (hmax : N ≤ 266) (hind : ind = 0 ↔ bs.length ≤ 10) :
    ∃ bs' ind' leak, Wrote limit data N d0 st ino
        (writeBlocks data n k st ino (bytesIn data k)) bs' ind' leak ∧
      (writeBlocks data n k st ino (bytesIn data k)).1.out =
        st.out ++ loopMessages N bs' leak := by
  induction n generalizing k st ino bs ind with
  | zero =>
    have hkN : k = N := by omega
    refine ⟨bs, ind, [], ⟨hF, hind, rfl, rfl, SameMeta.refl ino, ?_⟩, ?_⟩
    · exact .complete (hk.trans hkN) rfl (by rw [← hkN]; rfl)
    · rw [loopMessages, if_pos (hk.trans hkN), List.append_nil, writeBlocks]
  | succ n ih =>
    rw [writeBlocks]
    rcases allocateFreeBlock_cases st hoff with ⟨heq, hfull⟩ |
      ⟨idx, buf, hidx, hidxlim, hclear, _, hbuf, heq⟩
    · simp only [heq, if_true]
      rw [hlim] at hfull
      refine ⟨bs, ind, [], ⟨hF, hind, rfl, rfl, SameMeta.refl ino,
        .noBlock (by omega) rfl hfull (by rw [hk])⟩, ?_⟩
      rw [loopMessages, if_neg (by omega), if_pos rfl]
      rfl
    · have hne : ¬ 11 + idx = 0 := by omega
      rw [hlim] at hidxlim
      simp only [heq, hne, if_false, chunkSector_bytesIn, bytesIn_succ]
      -- from here on `st1` has the new block allocated and written, but not listed
      have hF1 := (hF.allocate hidx hidxlim hclear hbuf).write (b := 11 + idx) List.mem_cons_self
        (chunkOf data k)
      obtain ⟨st1, hst1⟩ : ∃ st1, st1 = (st.writeSector 10 buf).writeSector (11 + idx)
        (chunkOf data k) := ⟨_, rfl⟩
      have hd1 : st1.disk = Function.update (Function.update st.disk 10 buf) (11 + idx)
        (chunkOf data k) := by rw [hst1, allocated_write_disk st hidx]
      have hm1 : st1.toMountState = st.toMountState := by rw [hst1]; rfl
      have hb1 : st1.outOfBounds = st.outOfBounds := by rw [hst1]; rfl
      have hout1 : st1.out = st.out := by rw [hst1]; rfl
      have hoff1 : st1.activeSb.dataOffset = 11 := by rw [hm1]; exact hoff
      have hlim1 : blockLimit st1.activeSb = limit := by rw [hm1]; exact hlim
      have hchunk : st1.disk (11 + idx) = chunkOf data bs.length := by
        rw [hd1, Function.update_self, hk]
      rw [← hd1] at hF1
      rw [← hst1]
      by_cases hk10 : k < 10
      · have h0 : ind = 0 := hind.mpr (by omega)
        subst h0
        simp only [hk10, if_true]
        have hF2 := hF1.listDirect (by omega) hchunk
        rw [hk] at hF2
        obtain ⟨bs', ind', leak, hW, hout⟩ := ih (k + 1) st1 _ (bs ++ [11 + idx]) 0 hoff1 hlim1
          hF2 (by simp [hk]) (by omega) ⟨fun _ => by simp; omega, fun _ => rfl⟩
        exact ⟨bs', ind', leak, hW.of_step hm1 hb1 ⟨_, _, rfl⟩, hout1 ▸ hout⟩
      · simp only [hk10, if_false]
        rcases ensureIndirect_cases hoff1 hlim1 hF1 (by omega) hind with
          ⟨st2, heq2, hd2, hm2, hb2, h0, hfull, hout2⟩ |
          ⟨st2, ino2, ind2, heq2, hne2, hval, hF2, hb, hm2, hb2, hmeta, hout2⟩
        · have hlen : bs.length = 10 := by have := hind.mp h0; omega
          have hk' : k = 10 := by omega
          simp only [heq2]
          rw [← hd2] at hF1 hfull
          refine ⟨bs, ind, [11 + idx], ⟨hF1, hind, hm2.trans hm1, hb2.trans hb1, SameMeta.refl ino,
            .noIndex hlen (by omega) rfl hfull (by rw [hk'])⟩, ?_⟩
          rw [loopMessages, if_neg (by omega), if_neg (by simp), hout2, hout1]
        · simp only [heq2, hval]
          have hF3 := hF2.listTable hne2 (by omega) (by omega) (hb.trans hchunk)
          have hind2 : ind2 < 2 ^ 28 := Nat.lt_of_lt_of_le hF2.layout.ind_lt (by decide)
          rw [hk, ← writeSector_disk st2 hind2] at hF3
          have hoff2 : st2.activeSb.dataOffset = 11 := by rw [hm2]; exact hoff1
          have hlim2 : blockLimit st2.activeSb = limit := by rw [hm2]; exact hlim1
          obtain ⟨bs', ind', leak, hW, hout⟩ := ih (k + 1) (st2.writeSector ind2
              ((st2.disk ind2).setPointer (k - 10) (UInt16.ofNat (11 + idx)))) ino2
            (bs ++ [11 + idx]) ind2 hoff2 hlim2 hF3 (by simp [hk]) (by omega)
            ⟨fun h => absurd h hne2, fun h => by simp at h; omega⟩
          exact ⟨bs', ind', leak, hW.of_step (hm2.trans hm1) (hb2.trans hb1) hmeta,
            hout.trans (congrArg (· ++ _) (hout2.trans hout1))⟩

end Newrex
