import Newrex.RexFS.Frees
import Newrex.RexFS.Sectors

/-!
# RexFS: which disks keep a command inside its arrays

`rexfs_mount` checks the magic and the version of the superblock and nothing else, so that
every other byte of a mounted disk is arbitrary. Four parts of a command trust what they
find there:

* `free_block` tests its block against the start of the data area and not against the 4096
  bits of the bitmap;
* the reading loops of `rexfs_cat` and `rexfs_exec` take the number of blocks from the size
  of the inode, without the limit of 266 that `rexfs_write` has;
* `strcmp` and `print_string` rely on a NUL in the 28 bytes of a name;
* `read_sector` and `write_sector` are called with whatever number a pointer or the start of
  the data area gives.

`Command.Safe` and `Command.StaysOnDrive` say of the state in front of a command that none of
them is reached with such data. `Command.contained_iff`: this is exactly when the command stays
inside its arrays and ends. `run_contained_iff` is the same for every run after a mount, and
`pointer_beyond_bitmap` a disk on which one `rm` leaves the bitmap.
-/

namespace Newrex

open RexFS AccessLog

/-! ## Names -/

/-- `strcmp(s, ptr->name)` leaves the field when all of its bytes stand at the start of
`s`. -/
theorem strcmpReads_le_iff (s name : List UInt8) :
    strcmpReads s name ≤ name.length ↔ ¬ name <+: s := by
  induction s, name using strcmpReads.induct with
  | case1 s => simp [strcmpReads]
  | case2 b name => simp [strcmpReads]
  | case3 c s name ih =>
    rw [strcmpReads, if_pos rfl, List.length_cons, Nat.add_le_add_iff_right, ih,
      List.cons_prefix_cons]
    simp
  | case4 c s b name hne =>
    have hne' : b ≠ c := fun h => hne h.symm
    simp [strcmpReads, hne, List.cons_prefix_cons, hne']

theorem strcmpAccesses_inBounds_iff {s : List UInt8} {ino : NrInode} :
    InBounds Buffer.size (strcmpAccesses s ino) ↔ ¬ ino.nameField <+: s := by
  have hiff := strcmpReads_le_iff s ino.nameField
  rw [ino.length_nameField] at hiff
  rw [strcmpAccesses, InBounds.span_iff, ← hiff, Nat.zero_add]
  have hpos : strcmpReads s ino.nameField ≠ 0 := by
    unfold strcmpReads
    split
    · exact Nat.one_ne_zero
    · exact Nat.one_ne_zero
    · split
      · exact Nat.succ_ne_zero _
      · exact Nat.one_ne_zero
  exact or_iff_right hpos

/-- `print_string(ptr->name)` stays inside the field when the name ends in it. -/
theorem printAccesses_inBounds_iff {ino : NrInode} :
    InBounds Buffer.size (printAccesses ino) ↔ 0 ∈ ino.nameField := by
  rw [printAccesses, InBounds.span_iff, or_iff_right (Nat.succ_ne_zero _), Nat.zero_add]
  show ino.cName.length + 1 ≤ 28 ↔ _
  constructor
  · intro h
    by_contra hmem
    have hall : ino.cName = ino.nameField :=
      List.takeWhile_eq_self_iff.mpr fun c hc => by simpa using fun h0 : c = 0 => hmem (h0 ▸ hc)
    rw [hall, ino.length_nameField] at h
    omega
  · intro h
    have hle := ino.length_cName_le
    have hne : ino.cName.length ≠ 28 := by
      intro heq
      have hfield : ino.cName = ino.nameField :=
        (List.takeWhile_prefix _).eq_of_length (heq.trans ino.length_nameField.symm)
      rw [← hfield] at h
      simpa using List.mem_takeWhile_imp h
    omega

/-! ## The inode table -/

theorem Disk.mem_visited {d : Disk} {p : NrInode → Bool} {s : Slot} :
    s ∈ d.visited p ↔ ∀ t, t < s → p (d.inode t) = false := by
  simp [Disk.visited]

theorem scanAccesses_inBounds_iff {d : Disk} {p : NrInode → Bool}
    {atInode : NrInode → List (Access Buffer)} :
    InBounds Buffer.size (d.scanAccesses p atInode) ↔
      ∀ s, (∀ t, t < s → p (d.inode t) = false) → InBounds Buffer.size (atInode (d.inode s)) := by
  rw [Disk.scanAccesses, InBounds.flatMap_iff]
  simp only [Disk.mem_visited, InBounds.cons_iff, inodeAccess_lt, true_and]

theorem plainScanAccesses_inBounds (d : Disk) (p : NrInode → Bool) :
    InBounds Buffer.size (d.plainScanAccesses p) :=
  scanAccesses_inBounds_iff.mpr fun _ _ => .nil

/-- No inode that the scan for `name` compares has a name field that is a part of `name`: a
name of 28 characters or more that begins with the 28 bytes of the field. -/
def NamesInside (st : RexFS) (type : Option UInt16) (name : List UInt8) : Prop :=
  ∀ s, (∀ t, t < s → (st.disk.inode t).isNamed type st.currentDirId name = false) →
    (st.disk.inode s).isCandidate type st.currentDirId = true →
    ¬ (st.disk.inode s).nameField <+: name

theorem nameScanAccesses_inBounds_iff {st : RexFS} {type : Option UInt16} {name : List UInt8} :
    InBounds Buffer.size (nameScanAccesses st type name) ↔ NamesInside st type name := by
  rw [nameScanAccesses, scanAccesses_inBounds_iff]
  refine forall_congr' fun s => forall_congr' fun _ => ?_
  split
  · next hcand =>
    rw [strcmpAccesses_inBounds_iff]
    exact ⟨fun h _ => h, fun h => h hcand⟩
  · next hcand => exact ⟨fun _ h => absurd h hcand, fun _ => .nil⟩

/-! ## The path of a directory -/

/-- The inode of the directory `id`: none for the root, else the first with that id. -/
def Disk.dirInode (d : Disk) (id : UInt16) : Option Slot :=
  if id = 0 then none else d.findInode (·.id.toNat = id.toNat)

/-- The inode `n` steps above the directory `id`. -/
def Disk.ancestor (d : Disk) : Nat → UInt16 → Option Slot
  | 0, id => d.dirInode id
  | n + 1, id => (d.dirInode id).bind fun s => d.ancestor n (d.inode s).parentId

theorem Disk.ancestor_of_none {d : Disk} {id : UInt16} (h : d.dirInode id = none) (n : Nat) :
    d.ancestor n id = none := by
  cases n with
  | zero => exact h
  | succ n => rw [Disk.ancestor, h, Option.bind_none]

/-- The inodes of `path_ids` are the ancestors of the directory. -/
theorem pwdIds_ancestor {d : Disk} {m : Nat} {id : UInt16} {s : Slot} :
    (∃ e, e ∈ pwdIds d m id ∧ d.findInode (·.id.toNat = e.toNat) = some s) ↔
      ∃ n, n < m ∧ d.ancestor n id = some s := by
  induction m generalizing id with
  | zero => simp [pwdIds]
  | succ m ih =>
    rw [pwdIds]
    split
    · next h0 => simp [Disk.ancestor_of_none (if_pos h0)]
    · next h0 =>
      split
      · next t hfind =>
        have hdir : d.dirInode id = some t := (if_neg h0).trans hfind
        have hsucc : ∀ n, d.ancestor (n + 1) id = d.ancestor n (d.inode t).parentId :=
          fun n => by rw [Disk.ancestor, hdir, Option.bind_some]
        constructor
        · rintro ⟨e, he, hs⟩
          rcases List.mem_cons.mp he with rfl | he
          · exact ⟨0, Nat.succ_pos m, hdir.trans (hfind.symm.trans hs)⟩
          · obtain ⟨n, hn, hanc⟩ := ih.mp ⟨e, he, hs⟩
            exact ⟨n + 1, Nat.succ_lt_succ hn, (hsucc n).trans hanc⟩
        · rintro ⟨n, hn, hanc⟩
          cases n with
          | zero => exact ⟨id, List.mem_cons_self, hfind.trans (hdir.symm.trans hanc)⟩
          | succ n =>
            obtain ⟨e, he, hs⟩ := ih.mpr ⟨n, Nat.lt_of_succ_lt_succ hn, (hsucc n).symm.trans hanc⟩
            exact ⟨e, List.mem_cons_of_mem _ he, hs⟩
      · next hfind => simp [Disk.ancestor_of_none ((if_neg h0).trans hfind), hfind]

/-- Every inode on the path of the current directory has a name that ends in its field. -/
def PathNamesEnd (st : RexFS) : Prop :=
  ∀ n, n < 64 → ∀ s, st.disk.ancestor n st.currentDirId = some s →
    0 ∈ (st.disk.inode s).nameField

theorem walkAccesses_inBounds {d : Disk} {e : UInt16 × Nat} (h : e.2 < 64) :
    InBounds Buffer.size (walkAccesses d e) :=
  InBounds.cons_iff.mpr ⟨h, plainScanAccesses_inBounds _ _⟩

theorem componentAccesses_inBounds_iff {d : Disk} {e : UInt16 × Nat} (h : e.2 < 64) :
    InBounds Buffer.size (componentAccesses d e) ↔
      ∀ s, d.findInode (·.id.toNat = e.1.toNat) = some s → 0 ∈ (d.inode s).nameField := by
  have hhead : InBounds Buffer.size
      (⟨.pathIds, e.2⟩ :: d.plainScanAccesses (·.id.toNat = e.1.toNat)) := walkAccesses_inBounds h
  rw [componentAccesses, InBounds.append_iff, and_iff_right hhead]
  split
  · next s hs => rw [printAccesses_inBounds_iff, hs]; simp
  · next hnone => rw [hnone]; simp

theorem pwdAccesses_inBounds_iff {st : RexFS} (hm : st.fsMounted = true) :
    InBounds Buffer.size (pwdAccesses st) ↔ PathNamesEnd st := by
  unfold pwdAccesses
  split
  · next h =>
    have h0 : st.currentDirId = 0 := by simpa [hm] using h
    simp [PathNamesEnd, Disk.ancestor_of_none (if_pos h0)]
  · have hidx : ∀ e, e ∈ (pwdIds st.disk 64 st.currentDirId).zipIdx →
        e.1 ∈ pwdIds st.disk 64 st.currentDirId ∧ e.2 < 64 := by
      intro e he
      have hlt := List.snd_lt_of_mem_zipIdx he
      have hlen := pwdIds_length_le st.disk 64 st.currentDirId
      exact ⟨List.fst_mem_of_mem_zipIdx he, by omega⟩
    have hwalk : InBounds Buffer.size
        ((pwdIds st.disk 64 st.currentDirId).zipIdx.flatMap (walkAccesses st.disk)) :=
      InBounds.flatMap_iff.mpr fun e he => walkAccesses_inBounds (hidx e he).2
    rw [InBounds.append_iff, and_iff_right hwalk, InBounds.flatMap_iff]
    constructor
    · intro h n hn s hs
      obtain ⟨id, hid, hfind⟩ := pwdIds_ancestor.mpr ⟨n, hn, hs⟩
      obtain ⟨i, hi, rfl⟩ := List.getElem_of_mem hid
      have he := List.mk_mem_zipIdx_iff_getElem?.mpr (List.getElem?_eq_getElem hi)
      exact (componentAccesses_inBounds_iff (hidx _ he).2).mp
        (h _ (List.mem_reverse.mpr he)) s hfind
    · intro h e he
      have he' := List.mem_reverse.mp he
      refine (componentAccesses_inBounds_iff (hidx e he').2).mpr fun s hs => ?_
      obtain ⟨n, hn, hanc⟩ := pwdIds_ancestor.mp ⟨e.1, (hidx e he').1, hs⟩
      exact h n hn s hanc

/-! ## Freeing blocks -/

theorem freeBlockAccesses_inBounds_iff {sb : NrSuperblock} {b : Nat} :
    InBounds Buffer.size (freeBlockAccesses sb b) ↔ b < sb.dataOffset.toNat + 4096 := by
  unfold freeBlockAccesses
  split
  · next h => exact ⟨fun _ => by omega, fun _ => .nil⟩
  · next h =>
    rw [InBounds.cons_iff, and_iff_left .nil]
    show (b - sb.dataOffset.toNat) / 8 < 512 ↔ _
    omega

theorem freePointerAccesses_inBounds_iff {sb : NrSuperblock} {entry : Access Buffer} {p : UInt16}
    (hentry : entry.index < entry.array.size) :
    InBounds Buffer.size (freePointerAccesses sb entry p) ↔
      (p ≠ 0 → p.toNat < sb.dataOffset.toNat + 4096) := by
  rw [freePointerAccesses, InBounds.cons_iff, and_iff_right hentry]
  split
  · next h => rw [freeBlockAccesses_inBounds_iff]; exact ⟨fun hlt _ => hlt, fun hlt => hlt h⟩
  · next h => exact ⟨fun _ hp => absurd hp h, fun _ => .nil⟩

/-- A bound on the blocks named by pointers, pointer by pointer. -/
theorem forall_pointerRefs_lt {ps : List UInt16} {n : Nat} :
    (∀ b, b ∈ pointerRefs ps → b < n) ↔ ∀ p, p ∈ ps → p ≠ 0 → p.toNat < n := by
  constructor
  · intro h p hp hne
    exact h _ (mem_pointerRefs.mpr ⟨fun h0 => hne (UInt16.toNat.inj h0), p, hp, rfl⟩)
  · intro h b hb
    obtain ⟨hb0, p, hp, rfl⟩ := mem_pointerRefs.mp hb
    exact h p hp fun h0 => hb0 (by rw [h0]; rfl)

theorem freeInodeAccesses_inBounds_iff {st : RexFS} {ino : NrInode} :
    InBounds Buffer.size (freeInodeAccesses st ino) ↔ FreesInside st ino := by
  have hdirect : InBounds Buffer.size ((List.finRange 10).flatMap fun k : Fin 10 =>
      freePointerAccesses st.activeSb ⟨.directBlocks, k.val⟩ (ino.directBlocks k)) ↔
      ∀ b, b ∈ pointerRefs (List.ofFn ino.directBlocks) →
        b < st.activeSb.dataOffset.toNat + 4096 := by
    rw [InBounds.flatMap_iff, forall_pointerRefs_lt, List.forall_mem_ofFn_iff]
    refine forall_congr' fun k => ?_
    have hk : k.val < Buffer.directBlocks.size := k.isLt
    have hmem : k ∈ List.finRange 10 := List.mem_finRange k
    exact (imp_iff_right hmem).trans (freePointerAccesses_inBounds_iff hk)
  have hindirect : ∀ s : Sector, InBounds Buffer.size ((List.range 256).flatMap fun k =>
      freePointerAccesses st.activeSb ⟨.indirectBuf, k⟩ (s.pointer k)) ↔
      ∀ b, b ∈ pointerRefs s.pointers → b < st.activeSb.dataOffset.toNat + 4096 := by
    intro s
    rw [InBounds.flatMap_iff, forall_pointerRefs_lt, Sector.pointers, List.forall_mem_map]
    refine forall_congr' fun k => forall_congr' fun hk => ?_
    exact freePointerAccesses_inBounds_iff (List.mem_range.mp hk)
  unfold freeInodeAccesses FreesInside RexFS.freedBlocks Disk.blocksOf
  dsimp only
  rw [InBounds.append_iff, hdirect, List.forall_mem_append]
  refine and_congr_right' ?_
  by_cases h0 : ino.indirectBlock = 0
  · simp [h0]
  · rw [if_pos h0, if_neg h0, InBounds.append_iff, hindirect, freeBlockAccesses_inBounds_iff,
      List.forall_mem_append, List.forall_mem_singleton]

/-! ## Reading files -/

/-- The file has more than the 266 blocks that an inode can name, and every pointer in front
of number 266 names one: the reading loop goes on behind the indirect block. -/
def Overreads (d : Disk) (ino : NrInode) : Prop :=
  ino.indirectBlock ≠ 0 ∧ 266 < (ino.size + 511).toNat / 512 ∧
    ∀ j, j < 266 → blockLbaOf d ino j ≠ some 0

theorem pointerAccesses_inBounds_iff {ino : NrInode} {k : Nat} :
    InBounds Buffer.size (pointerAccesses ino k) ↔ ¬ (266 ≤ k ∧ ino.indirectBlock ≠ 0) := by
  unfold pointerAccesses
  split
  · next h =>
    rw [InBounds.cons_iff, and_iff_left .nil]
    exact ⟨fun _ hk => by omega, fun _ => h⟩
  · split
    · next h0 => exact ⟨fun _ hk => hk.2 h0, fun _ => .nil⟩
    · next hge h0 =>
      rw [InBounds.cons_iff, and_iff_left .nil]
      show k - 10 < 256 ↔ _
      simp only [ne_eq, h0, not_false_eq_true, and_true]
      omega

/-- The reading loop stays inside its arrays when the model's own flag says so. A buffer that
it fills has the size of the file. -/
theorem readAccesses_inBounds_iff {dst : Option Buffer} {d : Disk} {ino : NrInode}
    (hdst : ∀ b, dst = some b → ino.size.toNat ≤ b.size) (n k : Nat) {bytesRead : UInt32}
    (hread : bytesRead.toNat ≤ ino.size.toNat) :
    InBounds Buffer.size (readAccesses dst d ino n k bytesRead) ↔
      (readBlocks d ino n k bytesRead).2 = false := by
  induction n generalizing k bytesRead with
  | zero => exact ⟨fun _ => rfl, fun _ => .nil⟩
  | succ n ih =>
    rw [readAccesses, readBlocks, InBounds.append_iff, pointerAccesses_inBounds_iff]
    split
    · next hout => exact ⟨fun h => absurd hout h.1, fun h => absurd h (by simp)⟩
    · next hin =>
      rw [and_iff_right hin]
      cases blockLbaOf d ino k with
      | none => exact ⟨fun _ => rfl, fun _ => .nil⟩
      | some lba =>
        by_cases h0 : lba = 0
        · simp [h0]
        · simp only [if_neg h0]
          have hle := UInt32.toNat_sub_of_le ino.size bytesRead (UInt32.le_iff_toNat_le.mpr hread)
          have hchunk : (chunkSizeOf ino.size bytesRead).toNat ≤ (ino.size - bytesRead).toNat := by
            rcases chunkSizeOf_cases ino.size bytesRead with ⟨hlarge, heq⟩ | heq
            · rw [heq]
              exact Nat.le_of_lt hlarge
            · rw [heq]
          have hcopied := copied_le ino.size bytesRead
          have hnext : (bytesRead + chunkSizeOf ino.size bytesRead).toNat ≤ ino.size.toNat := by
            rw [UInt32.toNat_add]
            exact (Nat.mod_le _ _).trans (by omega)
          have hsector : InBounds Buffer.size (span .sectorBuf 0
              (if (chunkSizeOf ino.size bytesRead).toNat < 2 ^ 31 then
                (chunkSizeOf ino.size bytesRead).toNat else 0)) :=
            InBounds.span_iff.mpr (Or.inr ((Nat.zero_add _).trans_le hcopied))
          have hcopy : InBounds Buffer.size (dst.toList.flatMap (span · bytesRead.toNat
              (if (chunkSizeOf ino.size bytesRead).toNat < 2 ^ 31 then
                (chunkSizeOf ino.size bytesRead).toNat else 0))) := by
            refine InBounds.flatMap_iff.mpr fun b hb => InBounds.span_iff.mpr (Or.inr ?_)
            have := hdst b (Option.mem_toList.mp hb)
            split
            · omega
            · omega
          rw [InBounds.append_iff, InBounds.append_iff, and_iff_right ⟨hsector, hcopy⟩]
          exact ih (k + 1) hnext

/-- An inode with an indirect block has a pointer for every block. -/
theorem blockLbaOf_ne_none (d : Disk) {ino : NrInode} (h : ino.indirectBlock ≠ 0) (k : Nat) :
    blockLbaOf d ino k ≠ none := by
  rw [blockLbaOf, if_neg h]
  split
  · exact Option.some_ne_none _
  · exact Option.some_ne_none _

/-- When the reading loop runs over, from block `k` on with `n` blocks left. -/
theorem readBlocks_runs_over_iff {d : Disk} {ino : NrInode} (n k : Nat) (bytesRead : UInt32) :
    (readBlocks d ino n k bytesRead).2 = true ↔
      ino.indirectBlock ≠ 0 ∧ 0 < n ∧ 266 < k + n ∧
        ∀ j, k ≤ j → j < 266 → blockLbaOf d ino j ≠ some 0 := by
  induction n generalizing k bytesRead with
  | zero => simp [readBlocks]
  | succ n ih =>
    rw [readBlocks]
    split
    · next hout =>
      refine ⟨fun _ => ⟨hout.2, Nat.succ_pos n, by omega, fun j h1 h2 => ?_⟩, fun _ => rfl⟩
      omega
    · next hin =>
      have hk : ino.indirectBlock ≠ 0 → k < 266 := by
        intro hind
        by_contra hge
        exact hin ⟨by omega, hind⟩
      split
      · next hnone =>
        exact ⟨fun h => absurd h (by simp), fun h => absurd hnone (blockLbaOf_ne_none d h.1 k)⟩
      · next lba hlba =>
        split
        · next h0 =>
          refine ⟨fun h => absurd h (by simp), fun h => ?_⟩
          have hzero : blockLbaOf d ino k = some 0 := by rw [hlba, h0]
          exact absurd hzero (h.2.2.2 k (Nat.le_refl k) (hk h.1))
        · next h0 =>
          dsimp only
          rw [ih]
          refine and_congr_right fun hind => ?_
          have hlt := hk hind
          constructor
          · rintro ⟨hn, hblocks, hall⟩
            refine ⟨Nat.succ_pos n, by omega, fun j h1 h2 => ?_⟩
            rcases Nat.eq_or_lt_of_le h1 with rfl | h1
            · rw [hlba]
              exact fun h => h0 (Option.some.inj h)
            · exact hall j h1 h2
          · rintro ⟨_, hblocks, hall⟩
            exact ⟨by omega, by omega, fun j h1 h2 => hall j (by omega) h2⟩

theorem fileBytes_runs_over_iff {d : Disk} {ino : NrInode} :
    (fileBytes d ino).2 = false ↔ ¬ Overreads d ino := by
  rw [← Bool.not_eq_true, fileBytes, readBlocks_runs_over_iff, Overreads]
  refine not_congr (and_congr_right fun _ => ?_)
  constructor
  · rintro ⟨_, hlt, hall⟩
    exact ⟨by omega, fun j hj => hall j (Nat.zero_le j) hj⟩
  · rintro ⟨hlt, hall⟩
    exact ⟨by omega, by omega, fun j _ hj => hall j hj⟩

theorem fileAccesses_inBounds_iff {dst : Option Buffer} {d : Disk} {ino : NrInode}
    (hdst : ∀ b, dst = some b → ino.size.toNat ≤ b.size) :
    InBounds Buffer.size (fileAccesses dst d ino) ↔ ¬ Overreads d ino := by
  rw [← fileBytes_runs_over_iff]
  exact readAccesses_inBounds_iff hdst _ 0 (Nat.zero_le _)

/-- Such a file has more than eight bytes. -/
theorem Overreads.size_ge {d : Disk} {ino : NrInode} (h : Overreads d ino) : ¬ ino.size < 8 := by
  intro hlt
  have hsize : ino.size.toNat < 8 := UInt32.lt_iff_toNat_lt.mp hlt
  have hblocks := h.2.1
  rw [UInt32.toNat_add] at hblocks
  have h511 : (511 : UInt32).toNat = 511 := rfl
  omega

/-! ## Commands -/

/-- A command stays inside its arrays and ends: every access of its log is in bounds, the log
is no longer than the limit that the argument alone sets, every sector that it waits for is one
of the drive's `N`, and the model raises no flag. -/
structure Command.Contained (N : Nat) (st : RexFS) (c : Command) : Prop where
  inBounds : InBounds Buffer.size (c.accesses st)
  ends : (c.accesses st).length ≤ 600000 + 2 * c.argumentLength
  onDrive : OnDrive N (c.sectors st)
  unflagged : (c.step st).outOfBounds = st.outOfBounds

/-- What the state in front of a command has to satisfy for its arrays. The scan of the command
compares no name field that fills its 28 bytes and continues in the argument; a name that is
printed ends in its field; a file whose blocks are freed names only blocks that the bitmap
covers; and a file that is read does not run over its indirect block. -/
def Command.Safe (st : RexFS) (c : Command) : Prop :=
  st.fsMounted = true →
  match c with
  | mkdir name | touch name => name.chars ≠ [] → NamesInside st none name.chars
  | cd path =>
    path.chars ≠ [] → path.chars ≠ slash → path.chars ≠ dotDot →
      NamesInside st (some 2) path.chars
  | pwd => PathNamesEnd st
  | ls =>
    ∀ s, (st.disk.inode s).isCandidate none st.currentDirId = true →
      0 ∈ (st.disk.inode s).nameField
  | rm name =>
    name.chars ≠ [] → NamesInside st none name.chars ∧
      ∀ s, st.disk.findInode (·.isEntry st.currentDirId name.chars) = some s →
        (st.disk.inode s).type ≠ 2 → FreesInside st (st.disk.inode s)
  | write cmdArgs | writehex cmdArgs _ =>
    cmdArgs.chars ≠ [] → payloadOf cmdArgs.chars ≠ none →
      NamesInside st (some 1) (filenameOf cmdArgs.chars) ∧
      ∀ s, st.disk.findInode (·.isEntryOf 1 st.currentDirId (filenameOf cmdArgs.chars)) = some s →
        FreesInside st (st.disk.inode s)
  | cat filename =>
    filename.chars ≠ [] → NamesInside st (some 1) filename.chars ∧
      ∀ s, st.disk.findInode (·.isEntryOf 1 st.currentDirId filename.chars) = some s →
        ¬ Overreads st.disk (st.disk.inode s)
  | exec filename codeBuffer _ =>
    filename.chars ≠ [] → NamesInside st (some 1) filename.chars ∧
      ∀ s, st.disk.findInode (·.isEntryOf 1 st.currentDirId filename.chars) = some s →
        codeBuffer ≠ 0 → ¬ Overreads st.disk (st.disk.inode s)

/-! ### The accesses -/

theorem createAccesses_inBounds_iff {st : RexFS} {name : CString} (hm : st.fsMounted = true) :
    InBounds Buffer.size (createAccesses st name) ↔
      (name.chars ≠ [] → NamesInside st none name.chars) := by
  unfold createAccesses
  split
  · next h =>
    have hnil : name.chars = [] := by simpa [hm] using h
    simp [hnil]
  · next h =>
    have hne : name.chars ≠ [] := by simpa [hm] using h
    rw [imp_iff_right hne, InBounds.append_iff, nameScanAccesses_inBounds_iff]
    refine and_iff_left ?_
    split
    · exact .nil
    · refine InBounds.append_iff.mpr ⟨plainScanAccesses_inBounds _ _, ?_⟩
      split
      · have hlen := List.length_take_le 27 name.chars
        refine InBounds.span_iff.mpr (Or.inr ?_)
        show 0 + _ ≤ 28
        omega
      · exact .nil

theorem cdAccesses_inBounds_iff {st : RexFS} {path : CString} (hm : st.fsMounted = true) :
    InBounds Buffer.size (cdAccesses st path) ↔
      (path.chars ≠ [] → path.chars ≠ slash → path.chars ≠ dotDot →
        NamesInside st (some 2) path.chars) := by
  unfold cdAccesses
  split
  · next h =>
    have h' : path.chars = [] ∨ path.chars = slash := by simpa [hm] using h
    exact ⟨fun _ h1 h2 => absurd h' (by simp [h1, h2]), fun _ => .nil⟩
  · next h =>
    obtain ⟨hne, hslash⟩ : path.chars ≠ [] ∧ path.chars ≠ slash := by simpa [hm] using h
    split
    · next hdots =>
      refine ⟨fun _ _ _ h3 => absurd hdots h3, fun _ => ?_⟩
      split
      · exact .nil
      · exact plainScanAccesses_inBounds _ _
    · next hdots =>
      rw [imp_iff_right hne, imp_iff_right hslash, imp_iff_right hdots,
        nameScanAccesses_inBounds_iff]

theorem lsAccesses_inBounds_iff {st : RexFS} (hm : st.fsMounted = true) :
    InBounds Buffer.size (lsAccesses st) ↔
      ∀ s, (st.disk.inode s).isCandidate none st.currentDirId = true →
        0 ∈ (st.disk.inode s).nameField := by
  unfold lsAccesses
  rw [if_neg (by simp [hm]), scanAccesses_inBounds_iff]
  refine forall_congr' fun s => ?_
  rw [imp_iff_right fun _ _ => rfl]
  split
  · next hcand => rw [printAccesses_inBounds_iff, imp_iff_right hcand]
  · next hcand => exact ⟨fun _ h => absurd h hcand, fun _ => .nil⟩

theorem rmAccesses_inBounds_iff {st : RexFS} {name : CString} (hm : st.fsMounted = true) :
    InBounds Buffer.size (rmAccesses st name) ↔
      (name.chars ≠ [] → NamesInside st none name.chars ∧
        ∀ s, st.disk.findInode (·.isEntry st.currentDirId name.chars) = some s →
          (st.disk.inode s).type ≠ 2 → FreesInside st (st.disk.inode s)) := by
  unfold rmAccesses
  split
  · next h =>
    have hnil : name.chars = [] := by simpa [hm] using h
    simp [hnil]
  · next h =>
    have hne : name.chars ≠ [] := by simpa [hm] using h
    rw [imp_iff_right hne, InBounds.append_iff, nameScanAccesses_inBounds_iff]
    refine and_congr_right' ?_
    split
    · next hnone => simp [hnone]
    · next s hs =>
      rw [hs]
      simp only [Option.some.injEq, forall_eq']
      split
      · next hdir =>
        refine ⟨fun _ h => absurd hdir h, fun _ => ?_⟩
        refine InBounds.append_iff.mpr ⟨plainScanAccesses_inBounds _ _, ?_⟩
        split
        · exact .nil
        · exact inodeAccess_inBounds s
      · next hfile =>
        rw [imp_iff_right hfile, InBounds.append_iff, and_iff_left (inodeAccess_inBounds s),
          freeInodeAccesses_inBounds_iff]

/-- `rexfs_write` and `rexfs_writehex`: behind the freeing loops nothing depends on the
disk. -/
theorem payloadAccesses_inBounds_iff {st : RexFS} {cmdArgs : CString}
    {rest : Slot → List UInt8 → List (Access Buffer)} (hm : st.fsMounted = true)
    (hrest : ∀ s payload, InBounds Buffer.size (rest s payload)) :
    InBounds Buffer.size (payloadAccesses st cmdArgs rest) ↔
      (cmdArgs.chars ≠ [] → payloadOf cmdArgs.chars ≠ none →
        NamesInside st (some 1) (filenameOf cmdArgs.chars) ∧
        ∀ s, st.disk.findInode (·.isEntryOf 1 st.currentDirId (filenameOf cmdArgs.chars)) = some s →
          FreesInside st (st.disk.inode s)) := by
  unfold payloadAccesses
  split
  · next h =>
    have hnil : cmdArgs.chars = [] := by simpa [hm] using h
    simp [hnil]
  · next h =>
    have hne : cmdArgs.chars ≠ [] := by simpa [hm] using h
    have hname : InBounds Buffer.size
        (span .filename 0 ((filenameOf cmdArgs.chars).length + 1)) := by
      have hlen := filenameOf_length_le cmdArgs.chars
      refine InBounds.span_iff.mpr (Or.inr ?_)
      show 0 + _ ≤ 32
      omega
    rw [imp_iff_right hne, InBounds.append_iff, and_iff_right hname]
    split
    · next hnone => simp [hnone]
    · next payload hpayload =>
      rw [imp_iff_right (by simp [hpayload]), InBounds.append_iff, nameScanAccesses_inBounds_iff]
      refine and_congr_right' ?_
      split
      · next hnone => simp [hnone]
      · next s hs =>
        rw [InBounds.append_iff, and_iff_left (hrest s payload), freeInodeAccesses_inBounds_iff, hs]
        simp

theorem writeAccesses_inBounds_iff {st : RexFS} {cmdArgs : CString} (hm : st.fsMounted = true) :
    InBounds Buffer.size (writeAccesses st cmdArgs) ↔
      (cmdArgs.chars ≠ [] → payloadOf cmdArgs.chars ≠ none →
        NamesInside st (some 1) (filenameOf cmdArgs.chars) ∧
        ∀ s, st.disk.findInode (·.isEntryOf 1 st.currentDirId (filenameOf cmdArgs.chars)) = some s →
          FreesInside st (st.disk.inode s)) := by
  refine payloadAccesses_inBounds_iff hm fun s text => ?_
  have hsrc : text.length ≤ (Buffer.text text.length).size := Nat.le_succ _
  refine InBounds.append_iff.mpr ⟨InBounds.span_iff.mpr (Or.inr (Nat.zero_add _).le), ?_⟩
  exact (storeAccesses_spec hsrc _ _ _).1

theorem writehexAccesses_inBounds_iff {st : RexFS} {cmdArgs : CString} {binBuf : UInt32}
    (hm : st.fsMounted = true) :
    InBounds Buffer.size (writehexAccesses st cmdArgs binBuf) ↔
      (cmdArgs.chars ≠ [] → payloadOf cmdArgs.chars ≠ none →
        NamesInside st (some 1) (filenameOf cmdArgs.chars) ∧
        ∀ s, st.disk.findInode (·.isEntryOf 1 st.currentDirId (filenameOf cmdArgs.chars)) = some s →
          FreesInside st (st.disk.inode s)) := by
  refine payloadAccesses_inBounds_iff hm fun s hex => ?_
  refine InBounds.append_iff.mpr ⟨InBounds.span_iff.mpr (Or.inr (Nat.zero_add _).le), ?_⟩
  split
  · exact .nil
  · have hsrc := binBuf_size_le hex
    refine InBounds.append_iff.mpr ⟨InBounds.span_iff.mpr (Or.inr ?_),
      (storeAccesses_spec hsrc _ _ _).1⟩
    exact (Nat.zero_add _).trans_le hsrc

/-- `rexfs_cat` and `rexfs_exec`, where `P` says when the rest stays inside its arrays. -/
theorem openAccesses_inBounds_iff {st : RexFS} {filename : CString}
    {rest : NrInode → List (Access Buffer)} {P : NrInode → Prop} (hm : st.fsMounted = true)
    (hrest : ∀ ino, InBounds Buffer.size (rest ino) ↔ P ino) :
    InBounds Buffer.size (openAccesses st filename rest) ↔
      (filename.chars ≠ [] → NamesInside st (some 1) filename.chars ∧
        ∀ s, st.disk.findInode (·.isEntryOf 1 st.currentDirId filename.chars) = some s →
          P (st.disk.inode s)) := by
  unfold openAccesses
  split
  · next h =>
    have hnil : filename.chars = [] := by simpa [hm] using h
    simp [hnil]
  · next h =>
    have hne : filename.chars ≠ [] := by simpa [hm] using h
    rw [imp_iff_right hne, InBounds.append_iff, nameScanAccesses_inBounds_iff]
    refine and_congr_right' ?_
    split
    · next hnone => simp [hnone]
    · next s hs => rw [hrest, hs]; simp

theorem catAccesses_inBounds_iff {st : RexFS} {filename : CString} (hm : st.fsMounted = true) :
    InBounds Buffer.size (catAccesses st filename) ↔
      (filename.chars ≠ [] → NamesInside st (some 1) filename.chars ∧
        ∀ s, st.disk.findInode (·.isEntryOf 1 st.currentDirId filename.chars) = some s →
          ¬ Overreads st.disk (st.disk.inode s)) := by
  refine openAccesses_inBounds_iff (P := fun ino => ¬ Overreads st.disk ino) hm fun ino => ?_
  split
  · next h0 =>
    refine ⟨fun _ hover => hover.size_ge ?_, fun _ => .nil⟩
    rw [h0]
    decide
  · exact fileAccesses_inBounds_iff fun b hb => by cases hb

theorem execAccesses_inBounds_iff {st : RexFS} {filename : CString} {codeBuffer : UInt32}
    (hm : st.fsMounted = true) :
    InBounds Buffer.size (execAccesses st filename codeBuffer) ↔
      (filename.chars ≠ [] → NamesInside st (some 1) filename.chars ∧
        ∀ s, st.disk.findInode (·.isEntryOf 1 st.currentDirId filename.chars) = some s →
          codeBuffer ≠ 0 → ¬ Overreads st.disk (st.disk.inode s)) := by
  refine openAccesses_inBounds_iff (P := fun ino => codeBuffer ≠ 0 → ¬ Overreads st.disk ino) hm
    fun ino => ?_
  split
  · next h =>
    refine ⟨fun _ hbuf hover => ?_, fun _ => .nil⟩
    rcases h with hsmall | h0
    · exact hover.size_ge hsmall
    · exact hbuf h0
  · next h =>
    obtain ⟨hlarge, hbuf⟩ := not_or.mp h
    have hsize : 8 ≤ ino.size.toNat := by
      have := UInt32.lt_iff_toNat_lt.not.mp hlarge
      exact Nat.not_lt.mp this
    have hheader : InBounds Buffer.size (span (.codeBuffer ino.size) 0 8) :=
      InBounds.span_iff.mpr (Or.inr hsize)
    rw [InBounds.append_iff, and_iff_left hheader, imp_iff_right hbuf]
    exact fileAccesses_inBounds_iff fun b hb => by cases hb; exact Nat.le_refl _

/-- The log of a command is in bounds exactly when the state in front of it is safe. -/
theorem Command.inBounds_iff_safe (st : RexFS) (c : Command) :
    InBounds Buffer.size (c.accesses st) ↔ c.Safe st := by
  by_cases hm : st.fsMounted = true
  · unfold Command.Safe
    rw [imp_iff_right hm]
    cases c with
    | mkdir name => exact createAccesses_inBounds_iff hm
    | cd path => exact cdAccesses_inBounds_iff hm
    | pwd => exact pwdAccesses_inBounds_iff hm
    | ls => exact lsAccesses_inBounds_iff hm
    | touch name => exact createAccesses_inBounds_iff hm
    | rm name => exact rmAccesses_inBounds_iff hm
    | write cmdArgs => exact writeAccesses_inBounds_iff hm
    | writehex cmdArgs binBuf => exact writehexAccesses_inBounds_iff hm
    | cat filename => exact catAccesses_inBounds_iff hm
    | exec filename codeBuffer old => exact execAccesses_inBounds_iff hm
  · have hnone : c.accesses st = [] := by
      cases c <;> simp [Command.accesses, createAccesses, cdAccesses, pwdAccesses, lsAccesses,
        rmAccesses, writeAccesses, writehexAccesses, payloadAccesses, catAccesses, execAccesses,
        openAccesses, hm]
    rw [hnone]
    exact ⟨fun _ h => absurd h hm, fun _ => .nil⟩

/-! ### The flag of the model -/

theorem Command.Safe.rm_staysInside {st : RexFS} {name : CString} (h : (Command.rm name).Safe st) :
    (Op.rm name).StaysInside st := by
  rcases hres : Op.resolved st (.rm name) with _ | s
  · exact Op.staysInside_of_unresolved hres
  · obtain ⟨hm, hne, hfind⟩ := Op.resolved_rm hres
    by_cases htype : (st.disk.inode s).type = 2
    · exact Op.staysInside_of_dir hres htype
    · exact (Op.staysInside_iff hres htype).mpr ((h hm hne).2 s hfind htype)

theorem Command.Safe.write_staysInside {st : RexFS} {cmdArgs : CString}
    (h : (Command.write cmdArgs).Safe st) : (Op.write cmdArgs).StaysInside st := by
  rcases hres : Op.resolved st (.write cmdArgs) with _ | s
  · exact Op.staysInside_of_unresolved hres
  · obtain ⟨hm, hne, ⟨text, htext, _⟩, hfind⟩ := Op.resolved_write cmdArgs hres
    exact (Op.staysInside_iff hres (Op.resolved_write_type hres)).mpr
      ((h hm hne (by rw [htext]; exact Option.some_ne_none _)).2 s hfind)

theorem rexfsCat_outOfBounds {st : RexFS} {filename : CString}
    (h : (Command.cat filename).Safe st) :
    (st.rexfsCat filename).outOfBounds = st.outOfBounds := by
  unfold rexfsCat
  split
  · rfl
  · next hm =>
    split
    · rfl
    · next hne =>
      split
      · rfl
      · next s hs =>
        have hread := (h (by simpa using hm) hne).2 s hs
        dsimp only
        split
        · rfl
        · rw [fileBytes_runs_over_iff.mpr hread, Bool.or_false]

theorem rexfsExec_outOfBounds {st : RexFS} {filename : CString} {codeBuffer : UInt32}
    {old : Nat → UInt8} (h : (Command.exec filename codeBuffer old).Safe st) :
    (st.rexfsExec filename codeBuffer old).1.outOfBounds = st.outOfBounds := by
  unfold rexfsExec
  split
  · rfl
  · next hm =>
    split
    · rfl
    · next hne =>
      split
      · rfl
      · next s hs =>
        dsimp only
        split
        · rfl
        · split
          · rfl
          · next hbuf =>
            have hread := (h (by simpa using hm) hne).2 s hs hbuf
            rw [fileBytes_runs_over_iff.mpr hread, Bool.or_false]
            split
            · rfl
            · split <;> rfl

/-- A safe command raises no flag. -/
theorem Command.Safe.outOfBounds {st : RexFS} {c : Command} (h : c.Safe st) :
    (c.step st).outOfBounds = st.outOfBounds := by
  cases c with
  | mkdir name => exact (createInode_unmoved _ _ _ st name).flag
  | cd path => exact rexfsCd_outOfBounds st path
  | pwd =>
    show st.rexfsPwd.outOfBounds = st.outOfBounds
    unfold rexfsPwd
    split
    · rfl
    · split <;> rfl
  | ls =>
    show st.rexfsLs.outOfBounds = st.outOfBounds
    unfold rexfsLs
    split
    · rfl
    · dsimp only
      split <;> rfl
  | touch name => exact (createInode_unmoved _ _ _ st name).flag
  | rm name => exact Op.step_inside (.rm name) h.rm_staysInside
  | write cmdArgs => exact Op.step_inside (.write cmdArgs) h.write_staysInside
  | writehex cmdArgs binBuf =>
    have hwrite : (Command.write cmdArgs).Safe st := h
    exact Op.step_inside (.writehex cmdArgs binBuf) hwrite.write_staysInside
  | cat filename => exact rexfsCat_outOfBounds h
  | exec filename codeBuffer old => exact rexfsExec_outOfBounds h

/-- A command stays inside its arrays, and ends, exactly from the safe states in which the
pointers that it follows stay on the drive. -/
theorem Command.contained_iff {N : Nat} (hN : 11 ≤ N) {st : RexFS} {c : Command}
    (hsb : st.fsMounted = true → c.allocates = true → st.activeSb.BlocksOnDrive N) :
    c.Contained N st ↔ c.Safe st ∧ c.StaysOnDrive N st := by
  have hdrive := Command.sectors_onDrive_iff hN c hsb
  constructor
  · intro h
    exact ⟨(Command.inBounds_iff_safe st c).mp h.inBounds, hdrive.mp h.onDrive⟩
  · rintro ⟨hsafe, hstays⟩
    exact ⟨(Command.inBounds_iff_safe st c).mpr hsafe, c.accesses_length_le st,
      hdrive.mpr hstays, hsafe.outOfBounds⟩

/-! ## Runs -/

/-- The file system stays mounted, or unmounted, with the same superblock. -/
def SameMount (st st' : RexFS) : Prop :=
  st'.fsMounted = st.fsMounted ∧ st'.activeSb = st.activeSb

theorem SameMount.of_eq {st st' : RexFS} (h : st'.toMountState = st.toMountState) :
    SameMount st st' :=
  ⟨congrArg MountState.fsMounted h, congrArg MountState.activeSb h⟩

theorem rexfsCd_sameMount (st : RexFS) (path : CString) : SameMount st (st.rexfsCd path) := by
  unfold rexfsCd
  split
  · exact ⟨rfl, rfl⟩
  · split
    · exact ⟨rfl, rfl⟩
    · split
      · exact ⟨rfl, rfl⟩
      · split
        · split
          · exact ⟨rfl, rfl⟩
          · split <;> exact ⟨rfl, rfl⟩
        · split <;> exact ⟨rfl, rfl⟩

theorem rexfsRm_sameMount (st : RexFS) (name : CString) : SameMount st (st.rexfsRm name) := by
  unfold rexfsRm
  split
  · exact ⟨rfl, rfl⟩
  · split
    · exact ⟨rfl, rfl⟩
    · split
      · exact ⟨rfl, rfl⟩
      · dsimp only
        split
        · exact ⟨rfl, rfl⟩
        · refine .of_eq ?_
          rw [printStringColor_toMountState, storeInode_toMountState]
          split
          · rfl
          · exact freeInodeBlocks_toMountState st _

theorem rexfsWrite_sameMount (st : RexFS) (cmdArgs : CString) :
    SameMount st (st.rexfsWrite cmdArgs).1 := by
  rcases hres : Op.resolved st (.write cmdArgs) with _ | s
  · obtain ⟨text, heq⟩ := rexfsWrite_unresolved hres
    exact .of_eq (by rw [heq]; rfl)
  · refine .of_eq ?_
    rw [rexfsWrite_resolved hres, (storePayload_unmoved ..).mount, freeInodeBlocks_toMountState]

theorem rexfsWritehex_sameMount (st : RexFS) (cmdArgs : CString) (binBuf : UInt32) :
    SameMount st (st.rexfsWritehex cmdArgs binBuf).1 := by
  rcases hres : Op.resolved st (.writehex cmdArgs binBuf) with _ | s
  · obtain ⟨text, heq⟩ := rexfsWritehex_unresolved hres
    exact .of_eq (by rw [heq]; rfl)
  · refine .of_eq ?_
    rcases rexfsWritehex_resolved hres with ⟨_, heq⟩ | ⟨_, odd, heq⟩
    · rw [heq, printStringColor_toMountState, freeInodeBlocks_toMountState]
    · rw [heq, (storePayload_unmoved ..).mount, (hexParsed_facts st s odd).2.1]

theorem rexfsCat_sameMount (st : RexFS) (filename : CString) :
    SameMount st (st.rexfsCat filename) := by
  unfold rexfsCat
  split
  · exact ⟨rfl, rfl⟩
  · split
    · exact ⟨rfl, rfl⟩
    · split
      · exact ⟨rfl, rfl⟩
      · dsimp only
        split <;> exact ⟨rfl, rfl⟩

theorem rexfsExec_sameMount (st : RexFS) (filename : CString) (codeBuffer : UInt32)
    (old : Nat → UInt8) : SameMount st (st.rexfsExec filename codeBuffer old).1 := by
  unfold rexfsExec
  split
  · exact ⟨rfl, rfl⟩
  · split
    · exact ⟨rfl, rfl⟩
    · split
      · exact ⟨rfl, rfl⟩
      · dsimp only
        split
        · exact ⟨rfl, rfl⟩
        · split
          · exact ⟨rfl, rfl⟩
          · split
            · exact ⟨rfl, rfl⟩
            · split <;> exact ⟨rfl, rfl⟩

theorem Command.step_sameMount (st : RexFS) (c : Command) : SameMount st (c.step st) := by
  cases c with
  | mkdir name => exact .of_eq (createInode_unmoved _ _ _ st name).mount
  | cd path => exact rexfsCd_sameMount st path
  | pwd =>
    show SameMount st st.rexfsPwd
    unfold rexfsPwd
    split
    · exact ⟨rfl, rfl⟩
    · split <;> exact ⟨rfl, rfl⟩
  | ls =>
    show SameMount st st.rexfsLs
    unfold rexfsLs
    split
    · exact ⟨rfl, rfl⟩
    · dsimp only
      split <;> exact ⟨rfl, rfl⟩
  | touch name => exact .of_eq (createInode_unmoved _ _ _ st name).mount
  | rm name => exact rexfsRm_sameMount st name
  | write cmdArgs => exact rexfsWrite_sameMount st cmdArgs
  | writehex cmdArgs binBuf => exact rexfsWritehex_sameMount st cmdArgs binBuf
  | cat filename => exact rexfsCat_sameMount st filename
  | exec filename codeBuffer old => exact rexfsExec_sameMount st filename codeBuffer old

/-- Every command of a run from `st` has `P` in the state in front of it. -/
def EveryCommand (P : RexFS → Command → Prop) : RexFS → List Command → Prop
  | _, [] => True
  | st, c :: cs => P st c ∧ EveryCommand P (c.step st) cs

/-- Two properties of commands that are the same in every state with `I`, which the commands
keep. -/
theorem EveryCommand.congr {P Q : RexFS → Command → Prop} {I : RexFS → Prop} {st : RexFS}
    {cs : List Command} (hI : ∀ st (c : Command), I st → I (c.step st))
    (h : ∀ st c, I st → c ∈ cs → (P st c ↔ Q st c)) (hst : I st) :
    EveryCommand P st cs ↔ EveryCommand Q st cs := by
  induction cs generalizing st with
  | nil => exact Iff.rfl
  | cons c cs ih =>
    exact and_congr (h st c hst List.mem_cons_self)
      (ih (fun st c' hst' hmem => h st c' hst' (List.mem_cons_of_mem _ hmem)) (hI st c hst))

/-- A mount caches the numbers of the superblock on the disk. -/
theorem mount_cached (d : Disk) (hm : (boot d).rexfsMount.fsMounted = true) :
    (boot d).rexfsMount.activeSb.totalBlocks = (NrSuperblock.ofSector (d 1)).totalBlocks ∧
      (boot d).rexfsMount.activeSb.dataOffset = (NrSuperblock.ofSector (d 1)).dataOffset := by
  unfold rexfsMount at hm ⊢
  dsimp only at hm ⊢
  split at hm
  · cases hm
  · split at hm
    · cases hm
    · next hmagic hversion =>
      rw [if_neg hmagic, if_neg hversion]
      exact ⟨rfl, rfl⟩

/-- Corrupt disks and the arrays of the kernel. For every disk of a drive with `N` sectors and
every run of commands after its mount, all commands stay inside their arrays and end exactly
when each of them starts in a safe state and follows pointers on the drive. A run that allocates
needs a superblock whose blocks are on the drive. -/
theorem run_contained_iff {N : Nat} (hN : 11 ≤ N) (d : Disk) (cs : List Command)
    (hsb : ∀ c, c ∈ cs → c.allocates = true → (NrSuperblock.ofSector (d 1)).BlocksOnDrive N) :
    EveryCommand (fun st c => c.Contained N st) (boot d).rexfsMount cs ↔
      EveryCommand (fun st c => c.Safe st ∧ c.StaysOnDrive N st) (boot d).rexfsMount cs := by
  have hblocks : ∀ c, c ∈ cs → c.allocates = true → (boot d).rexfsMount.fsMounted = true →
      (boot d).rexfsMount.activeSb.BlocksOnDrive N := by
    intro c hc halloc hm
    rcases mount_cached d hm with ⟨htotal, hoff⟩
    have hlimit : blockLimit (boot d).rexfsMount.activeSb =
        blockLimit (NrSuperblock.ofSector (d 1)) := by rw [blockLimit, blockLimit, htotal]
    rw [NrSuperblock.BlocksOnDrive, hlimit, hoff]
    exact hsb c hc halloc
  refine EveryCommand.congr (I := SameMount (boot d).rexfsMount) (fun st c h => ?_)
    (fun st c h hc => Command.contained_iff hN fun hm halloc => ?_) ⟨rfl, rfl⟩
  · have hstep := c.step_sameMount st
    exact ⟨hstep.1.trans h.1, hstep.2.trans h.2⟩
  · rw [h.2]
    exact hblocks c hc halloc (h.1.symm.trans hm)

/-- On a drive with the sectors that `mkfs` counted, every block is on the drive. -/
theorem freshSuperblock_blocksOnDrive {N : Nat} {capacity : UInt32} (h : 11 ≤ capacity)
    (hN : capacity.toNat ≤ N) : (freshSuperblock capacity).BlocksOnDrive N := by
  intro i hi hlimit
  have htotal : 11 + blockLimit (freshSuperblock capacity) = totalSectors capacity :=
    blockLimit_mounted h
  have hle : totalSectors capacity ≤ capacity.toNat := by
    rw [totalSectors_eq]
    exact Nat.min_le_left _ _
  have hblock : ((freshSuperblock capacity).dataOffset + UInt32.ofNat i).toNat = 11 + i := by
    show ((11 : UInt32) + UInt32.ofNat i).toNat = 11 + i
    rw [UInt32.toNat_add, UInt32.toNat_ofNat']
    show (11 + i % 2 ^ 32) % 2 ^ 32 = 11 + i
    omega
  rw [hblock]
  omega

/-- A disk with a fresh superblock and nothing else. -/
def formattedDisk : Disk := Function.update (fun _ => Sector.zero) 1 (freshSuperblock 4096).toSector

/-- A drive that `mkfs` has formatted: the run that writes to a file that is not there. -/
theorem run_contained_iff_sample :
    EveryCommand (fun st c => c.Contained 4096 st) (boot formattedDisk).rexfsMount
      [.write (.ofBuffer [97, 32, 98])] := by
  have hsb : NrSuperblock.ofSector (formattedDisk 1) = freshSuperblock 4096 := by
    rw [formattedDisk, Function.update_self, NrSuperblock.ofSector_toSector]
  obtain ⟨hdisk, _, _⟩ := mount_valid (boot formattedDisk) hsb.symm rfl rfl
  have hfree : ∀ s, ((boot formattedDisk).rexfsMount.disk.inode s).id = 0 := by
    refine format_table_free fun l h2 _ => ?_
    have hl : l ≠ 1 := by omega
    rw [hdisk, Function.update_of_ne hl]
    show formattedDisk l = Sector.zero
    rw [formattedDisk, Function.update_of_ne hl]
  have hnone : ∀ name s, (boot formattedDisk).rexfsMount.disk.findInode
      (·.isEntryOf 1 (boot formattedDisk).rexfsMount.currentDirId name) ≠ some s :=
    fun name s hs => (isEntryOf_iff.mp (Disk.findInode_some hs).1).1 (hfree s)
  refine (run_contained_iff (by decide) formattedDisk _ fun c _ _ => ?_).mpr
    ⟨⟨fun _ _ _ => ⟨fun s _ hcand => ?_, fun s hs => ?_⟩, fun _ _ _ s hs => ?_⟩, trivial⟩
  · rw [hsb]
    exact freshSuperblock_blocksOnDrive (by decide) (by decide)
  · simp [NrInode.isCandidate, hfree s] at hcand
  · exact absurd hs (hnone _ s)
  · exact absurd hs (hnone _ s)

/-- A file named `a` in the root directory, of one block far behind the bitmap. -/
def strayInode : NrInode where
  id := 1
  size := 512
  type := 1
  parentId := 0
  name := fun j => if j = 0 then 97 else 0
  directBlocks := fun k => if k = 0 then 0xFFFF else 0
  indirectBlock := 0
  padding := 0

/-- A disk with a fresh superblock and that file in the first slot of its table. -/
def strayDisk : Disk := formattedDisk.setInode firstSlot strayInode

theorem strayDisk_superblock : NrSuperblock.ofSector (strayDisk 1) = freshSuperblock 4096 := by
  have hsector : strayDisk 1 = (freshSuperblock 4096).toSector := by
    rw [strayDisk, Disk.setInode, Function.update_of_ne (by decide), formattedDisk,
      Function.update_self]
  rw [hsector, NrSuperblock.ofSector_toSector]

/-- The mounted disk still has the file. -/
theorem strayDisk_inode : (boot strayDisk).rexfsMount.disk.inode firstSlot = strayInode := by
  obtain ⟨hdisk, _, _⟩ := mount_valid (boot strayDisk) strayDisk_superblock.symm rfl rfl
  have hcongr : (boot strayDisk).rexfsMount.disk.inode firstSlot = strayDisk.inode firstSlot := by
    refine Disk.inode_congr (fun l h2 _ => ?_) firstSlot
    rw [hdisk, Function.update_of_ne (by omega)]
    rfl
  rw [hcongr, strayDisk, Disk.setInode, Disk.inode_update, if_pos rfl]

/-- One `rm` after the mount clears a bit behind the 512 bytes of the bitmap. -/
theorem pointer_beyond_bitmap :
    (NrSuperblock.ofSector (strayDisk 1)).magic = rexfsMagic ∧
      (NrSuperblock.ofSector (strayDisk 1)).version = rexfsVersion ∧
      ¬ EveryCommand (fun st c => c.Contained 4096 st) (boot strayDisk).rexfsMount
        [.rm (.ofBuffer [97])] := by
  rw [strayDisk_superblock]
  refine ⟨rfl, rfl, fun h => ?_⟩
  obtain ⟨_, hstate, _⟩ := mount_valid (boot strayDisk) strayDisk_superblock.symm rfl rfl
  have hfind : (boot strayDisk).rexfsMount.disk.findInode
      (·.isEntry (boot strayDisk).rexfsMount.currentDirId [97]) = some firstSlot := by
    refine Search.find_finRange_eq_some.mpr ⟨?_, fun t ht => absurd ht (Nat.not_lt_zero _)⟩
    rw [strayDisk_inode, hstate]
    decide
  have hfrees := ((Command.inBounds_iff_safe _ _).mp h.1.inBounds (by rw [hstate])
    (by decide)).2 firstSlot hfind (by rw [strayDisk_inode]; decide)
  rw [strayDisk_inode, FreesInside, RexFS.freedBlocks_eq _ (by decide), hstate] at hfrees
  have hstray := hfrees 0xFFFF (List.mem_append_left _ (by decide))
  exact absurd hstray (by decide)

end Newrex
