import Mathlib.Logic.Function.Basic
import Newrex.Lib.LittleEndian
import Newrex.Lib.Bitmap

/-!
# The RexFS disk

A disk is a map from LBA to 512-byte sectors. RexFS lays three packed C
structures over sectors: `nr_superblock_t` (sector 1), eight `nr_inode_t` per
inode sector (sectors 2 to 9) and an array of 256 `uint16_t` block pointers
(an indirect block). The fields of a record cover every byte of it, so a record
and its bytes determine each other; `NrInode.ofBytes_bytes`,
`NrSuperblock.ofSector_toSector` and the `pointer_*` lemmas are the read-back
rules that the rest of the model uses. Sector 10 is read as a bitmap.
-/

namespace Newrex

open LittleEndian

/-- A 512-byte sector buffer. -/
abbrev Sector := Fin 512 → UInt8

/-- The disk: a read of a sector returns the last write to it. -/
abbrev Disk := Nat → Sector

namespace Sector

/-- Byte `i` of the buffer, for an index computed as a number. -/
def byte (s : Sector) (i : Nat) : UInt8 := if h : i < 512 then s ⟨i, h⟩ else 0

/-- The assignment `s[i] = v`. -/
def setByte (s : Sector) (i : Nat) (v : UInt8) : Sector := fun j => if j.val = i then v else s j

/-- A buffer after `memset(s, 0, 512)`. -/
def zero : Sector := fun _ => 0

/-- Bit `i` of the buffer, as the block bitmap numbers them. -/
def bit (s : Sector) (i : Nat) : Bool := Bitmap.test s.byte i

@[simp] theorem byte_zero (i : Nat) : zero.byte i = 0 := by
  unfold byte zero
  split <;> rfl

theorem byte_of_lt (s : Sector) {i : Nat} (h : i < 512) : s.byte i = s ⟨i, h⟩ := dif_pos h

theorem byte_setByte (s : Sector) {i j : Nat} (v : UInt8) (hj : j < 512) :
    (s.setByte i v).byte j = if j = i then v else s.byte j := by
  rw [byte_of_lt _ hj, byte_of_lt _ hj]
  rfl

/-- The buffer has 4096 bits. -/
theorem bit_lt {s : Sector} {i : Nat} (h : s.bit i = true) : i < 4096 := by
  by_contra hge
  have hbyte : s.byte (i / 8) = 0 := dif_neg (by omega)
  rw [bit, Bitmap.test, hbyte] at h
  simp [Bitmap.bitOf] at h

theorem bit_zero (i : Nat) : zero.bit i = false := by
  rw [bit, Bitmap.test, byte_zero, Bitmap.bitOf, UInt8.toBitVec_zero, BitVec.getLsbD_zero]

/-- The assignment, read as an update of all bytes. -/
theorem byte_setByte_update (s : Sector) {i j : Nat} (v : UInt8) (hj : j < 512) :
    (s.setByte i v).byte j = Function.update s.byte i v j := by
  rw [byte_setByte s v hj, Function.update_apply]

theorem bit_mark (s : Sector) {i j : Nat} (hj : j < 4096) :
    (s.setByte (i / 8) (Bitmap.mark (s.byte (i / 8)) (i % 8))).bit j =
      (s.bit j || decide (j = i)) := by
  rw [bit, Bitmap.test, byte_setByte_update s _ (by omega)]
  exact Bitmap.test_setBit j

theorem bit_unmark (s : Sector) {i j : Nat} (hj : j < 4096) :
    (s.setByte (i / 8) (Bitmap.unmark (s.byte (i / 8)) (i % 8))).bit j =
      (s.bit j && !decide (j = i)) := by
  rw [bit, Bitmap.test, byte_setByte_update s _ (by omega)]
  exact Bitmap.test_clearBit j

end Sector

/-! ## Fields -/

/-- The `uint16_t` at byte offset `off`. -/
def u16At (b : Nat → UInt8) (off : Nat) : UInt16 := UInt16.ofNat (load b 2 off)

/-- The `uint32_t` at byte offset `off`. -/
def u32At (b : Nat → UInt8) (off : Nat) : UInt32 := UInt32.ofNat (load b 4 off)

theorem u16At_of_bytes {b : Nat → UInt8} {off : Nat} {v : UInt16}
    (h : ∀ i, i < 2 → b (off + i) = byteOf v.toNat i) : u16At b off = v := by
  have hv : v.toNat < 256 ^ 2 := v.toNat_lt
  rw [u16At, load_of_bytes h, Nat.mod_eq_of_lt hv]
  exact UInt16.ofNat_toNat

theorem u32At_of_bytes {b : Nat → UInt8} {off : Nat} {v : UInt32}
    (h : ∀ i, i < 4 → b (off + i) = byteOf v.toNat i) : u32At b off = v := by
  have hv : v.toNat < 256 ^ 4 := v.toNat_lt
  rw [u32At, load_of_bytes h, Nat.mod_eq_of_lt hv]
  exact UInt32.ofNat_toNat

theorem u16At_congr {b c : Nat → UInt8} {off : Nat}
    (h : ∀ i, i < 2 → b (off + i) = c (off + i)) : u16At b off = u16At c off := by
  rw [u16At, u16At, load_congr h]

theorem byteOf_u32At (b : Nat → UInt8) {off i : Nat} (hi : i < 4) :
    byteOf (u32At b off).toNat i = b (off + i) := by
  have hlt : load b 4 off < 2 ^ 32 := load_lt b 4 off
  rw [u32At, UInt32.toNat_ofNat', Nat.mod_eq_of_lt hlt, byteOf_load b off hi]

/-! ## Superblock -/

/-- `nr_superblock_t`. -/
structure NrSuperblock where
  magic : UInt32
  version : UInt32
  totalBlocks : UInt32
  inodeCount : UInt32
  dataOffset : UInt32
  cleanShutdown : UInt32
  reserved : Fin 488 → UInt8

namespace NrSuperblock

/-- The structure after `memset(&sb, 0, sizeof(nr_superblock_t))`, and the
initial value of the static `active_sb`. -/
def zero : NrSuperblock := ⟨0, 0, 0, 0, 0, 0, fun _ => 0⟩

/-- The superblock laid over a sector buffer. -/
def ofSector (s : Sector) : NrSuperblock where
  magic := u32At s.byte 0
  version := u32At s.byte 4
  totalBlocks := u32At s.byte 8
  inodeCount := u32At s.byte 12
  dataOffset := u32At s.byte 16
  cleanShutdown := u32At s.byte 20
  reserved := fun i => s.byte (24 + i)

/-- The 512 bytes of a superblock. -/
def toSector (sb : NrSuperblock) : Sector := fun i =>
  if i.val < 4 then byteOf sb.magic.toNat i
  else if i.val < 8 then byteOf sb.version.toNat (i - 4)
  else if i.val < 12 then byteOf sb.totalBlocks.toNat (i - 8)
  else if i.val < 16 then byteOf sb.inodeCount.toNat (i - 12)
  else if i.val < 20 then byteOf sb.dataOffset.toNat (i - 16)
  else if i.val < 24 then byteOf sb.cleanShutdown.toNat (i - 20)
  else if h : i.val - 24 < 488 then sb.reserved ⟨i - 24, h⟩
  else 0

/-- A superblock written to a sector reads back unchanged. -/
theorem ofSector_toSector (sb : NrSuperblock) : ofSector sb.toSector = sb := by
  have hbyte : ∀ j (h : j < 512), sb.toSector.byte j = sb.toSector ⟨j, h⟩ :=
    fun j h => Sector.byte_of_lt _ h
  cases sb with
  | mk magic version totalBlocks inodeCount dataOffset cleanShutdown reserved =>
    simp only [ofSector, mk.injEq]
    -- one goal per field: skip the tests of the fields before it, take its own
    refine ⟨?_, ?_, ?_, ?_, ?_, ?_, ?_⟩
    · refine u32At_of_bytes fun i hi => ?_
      rw [hbyte _ (by omega)]
      simp only [toSector, Nat.zero_add]
      rw [if_pos hi]
    · refine u32At_of_bytes fun i hi => ?_
      rw [hbyte _ (by omega)]
      simp only [toSector]
      rw [if_neg (by omega), if_pos (by omega), Nat.add_sub_cancel_left]
    · refine u32At_of_bytes fun i hi => ?_
      rw [hbyte _ (by omega)]
      simp only [toSector]
      rw [if_neg (by omega), if_neg (by omega), if_pos (by omega), Nat.add_sub_cancel_left]
    · refine u32At_of_bytes fun i hi => ?_
      rw [hbyte _ (by omega)]
      simp only [toSector]
      rw [if_neg (by omega), if_neg (by omega), if_neg (by omega), if_pos (by omega),
        Nat.add_sub_cancel_left]
    · refine u32At_of_bytes fun i hi => ?_
      rw [hbyte _ (by omega)]
      simp only [toSector]
      rw [if_neg (by omega), if_neg (by omega), if_neg (by omega), if_neg (by omega),
        if_pos (by omega), Nat.add_sub_cancel_left]
    · refine u32At_of_bytes fun i hi => ?_
      rw [hbyte _ (by omega)]
      simp only [toSector]
      rw [if_neg (by omega), if_neg (by omega), if_neg (by omega), if_neg (by omega),
        if_neg (by omega), if_pos (by omega), Nat.add_sub_cancel_left]
    · funext i
      have hi : 24 + i.val - 24 < 488 := by omega
      rw [hbyte _ (by omega)]
      simp only [toSector]
      rw [if_neg (by omega), if_neg (by omega), if_neg (by omega), if_neg (by omega),
        if_neg (by omega), if_neg (by omega), dif_pos hi]
      congr 1
      exact Fin.ext (Nat.add_sub_cancel_left 24 i.val)

/-- A sector is the superblock laid over it. -/
theorem toSector_ofSector (s : Sector) : (ofSector s).toSector = s := by
  funext i
  have hs : s i = s.byte i.val := (Sector.byte_of_lt s i.isLt).symm
  have hfield : ∀ off, off ≤ i.val → i.val < off + 4 →
      byteOf (u32At s.byte off).toNat (i.val - off) = s i := by
    intro off hle hlt
    rw [byteOf_u32At s.byte (by omega), Nat.add_sub_cancel' hle, hs]
  simp only [toSector, ofSector]
  split
  · exact hfield 0 (by omega) (by omega)
  · split
    · exact hfield 4 (by omega) (by omega)
    · split
      · exact hfield 8 (by omega) (by omega)
      · split
        · exact hfield 12 (by omega) (by omega)
        · split
          · exact hfield 16 (by omega) (by omega)
          · split
            · exact hfield 20 (by omega) (by omega)
            · have hlt := i.isLt
              rw [dif_pos (by omega), hs]
              congr 1
              omega

end NrSuperblock

/-! ## Inodes -/

/-- `nr_inode_t`: 64 bytes, `id = 0` marks a free table slot. -/
structure NrInode where
  id : UInt32
  size : UInt32
  type : UInt16
  parentId : UInt16
  name : Fin 28 → UInt8
  directBlocks : Fin 10 → UInt16
  indirectBlock : UInt16
  padding : UInt16

namespace NrInode

/-- The inode laid over the 64 bytes from offset `off`. -/
def ofBytes (b : Nat → UInt8) (off : Nat) : NrInode where
  id := u32At b off
  size := u32At b (off + 4)
  type := u16At b (off + 8)
  parentId := u16At b (off + 10)
  name := fun j => b (off + (12 + j))
  directBlocks := fun k => u16At b (off + (40 + 2 * k))
  indirectBlock := u16At b (off + 60)
  padding := u16At b (off + 62)

/-- Byte `o` of the inode. -/
def bytes (ino : NrInode) (o : Nat) : UInt8 :=
  if o < 4 then byteOf ino.id.toNat o
  else if o < 8 then byteOf ino.size.toNat (o - 4)
  else if o < 10 then byteOf ino.type.toNat (o - 8)
  else if o < 12 then byteOf ino.parentId.toNat (o - 10)
  else if h : o - 12 < 28 then ino.name ⟨o - 12, h⟩
  else if h : (o - 40) / 2 < 10 then byteOf (ino.directBlocks ⟨(o - 40) / 2, h⟩).toNat ((o - 40) % 2)
  else if o < 62 then byteOf ino.indirectBlock.toNat (o - 60)
  else byteOf ino.padding.toNat (o - 62)

/-- Reading an inode depends only on its 64 bytes. -/
theorem ofBytes_congr {b c : Nat → UInt8} {off off' : Nat}
    (h : ∀ o, o < 64 → b (off + o) = c (off' + o)) : ofBytes b off = ofBytes c off' := by
  have hload : ∀ n o, o + n ≤ 64 → load b n (off + o) = load c n (off' + o) := by
    intro n
    induction n with
    | zero => intro o _; rfl
    | succ n ih =>
      intro o ho
      have h1 := ih (o + 1) (by omega)
      simp only [load, h o (by omega)]
      rw [Nat.add_assoc off, Nat.add_assoc off', h1]
  have h16 : ∀ o, o + 2 ≤ 64 → u16At b (off + o) = u16At c (off' + o) :=
    fun o ho => by rw [u16At, u16At, hload 2 o ho]
  have h32 : ∀ o, o + 4 ≤ 64 → u32At b (off + o) = u32At c (off' + o) :=
    fun o ho => by rw [u32At, u32At, hload 4 o ho]
  simp only [ofBytes, mk.injEq]
  refine ⟨h32 0 (by omega), h32 4 (by omega), h16 8 (by omega), h16 10 (by omega), ?_, ?_,
    h16 60 (by omega), h16 62 (by omega)⟩
  · funext j
    exact h _ (by omega)
  · funext k
    exact h16 _ (by omega)

/-- The bytes of an inode read back as that inode. -/
theorem ofBytes_bytes (ino : NrInode) : ofBytes ino.bytes 0 = ino := by
  cases ino with
  | mk id size type parentId name directBlocks indirectBlock padding =>
    simp only [ofBytes, mk.injEq, Nat.zero_add]
    refine ⟨?_, ?_, ?_, ?_, ?_, ?_, ?_, ?_⟩
    · refine u32At_of_bytes fun i hi => ?_
      simp only [bytes, Nat.zero_add]
      rw [if_pos hi]
    · refine u32At_of_bytes fun i hi => ?_
      simp only [bytes]
      rw [if_neg (by omega), if_pos (by omega), Nat.add_sub_cancel_left]
    · refine u16At_of_bytes fun i hi => ?_
      simp only [bytes]
      rw [if_neg (by omega), if_neg (by omega), if_pos (by omega), Nat.add_sub_cancel_left]
    · refine u16At_of_bytes fun i hi => ?_
      simp only [bytes]
      rw [if_neg (by omega), if_neg (by omega), if_neg (by omega), if_pos (by omega),
        Nat.add_sub_cancel_left]
    · funext j
      have hj : 12 + j.val - 12 < 28 := by omega
      simp only [bytes]
      rw [if_neg (by omega), if_neg (by omega), if_neg (by omega), if_neg (by omega), dif_pos hj]
      congr 1
      exact Fin.ext (Nat.add_sub_cancel_left 12 j.val)
    · funext k
      refine u16At_of_bytes fun i hi => ?_
      have hk : (40 + 2 * k.val + i - 40) / 2 < 10 := by omega
      have hdiv : (40 + 2 * k.val + i - 40) / 2 = k.val := by omega
      have hmod : (40 + 2 * k.val + i - 40) % 2 = i := by omega
      simp only [bytes]
      rw [if_neg (by omega), if_neg (by omega), if_neg (by omega), if_neg (by omega),
        dif_neg (by omega), dif_pos hk, hmod]
      congr 3
      exact Fin.ext hdiv
    · refine u16At_of_bytes fun i hi => ?_
      simp only [bytes]
      rw [if_neg (by omega), if_neg (by omega), if_neg (by omega), if_neg (by omega),
        dif_neg (by omega), dif_neg (by omega), if_pos (by omega), Nat.add_sub_cancel_left]
    · refine u16At_of_bytes fun i hi => ?_
      simp only [bytes]
      rw [if_neg (by omega), if_neg (by omega), if_neg (by omega), if_neg (by omega),
        dif_neg (by omega), dif_neg (by omega), if_neg (by omega), Nat.add_sub_cancel_left]

end NrInode

namespace Sector

/-- The inode `(nr_inode_t*)(s + i * 64)`. -/
def getInode (s : Sector) (i : Nat) : NrInode := NrInode.ofBytes s.byte (64 * i)

/-- The buffer after `*(nr_inode_t*)(s + i * 64) = ino`. -/
def putInode (s : Sector) (i : Nat) (ino : NrInode) : Sector := fun p =>
  if 64 * i ≤ p.val ∧ p.val < 64 * i + 64 then ino.bytes (p - 64 * i) else s p

theorem getInode_putInode_same (s : Sector) {i : Nat} (ino : NrInode) (hi : i < 8) :
    (s.putInode i ino).getInode i = ino := by
  have h : NrInode.ofBytes (s.putInode i ino).byte (64 * i) = NrInode.ofBytes ino.bytes 0 := by
    apply NrInode.ofBytes_congr
    intro o ho
    rw [byte_of_lt _ (by omega)]
    simp only [putInode]
    rw [if_pos (by omega), Nat.add_sub_cancel_left, Nat.zero_add]
  rw [getInode, h, NrInode.ofBytes_bytes]

theorem getInode_putInode_of_ne (s : Sector) {i j : Nat} (ino : NrInode) (hj : j < 8)
    (h : j ≠ i) : (s.putInode i ino).getInode j = s.getInode j := by
  apply NrInode.ofBytes_congr
  intro o ho
  rw [byte_of_lt _ (by omega), byte_of_lt _ (by omega)]
  simp only [putInode]
  rw [if_neg (by omega)]

/-- Entry `k` of `(unsigned short*)s`, the layout of an indirect block. -/
def pointer (s : Sector) (k : Nat) : UInt16 := u16At s.byte (2 * k)

/-- The buffer after `((unsigned short*)s)[k] = v`. -/
def setPointer (s : Sector) (k : Nat) (v : UInt16) : Sector := fun p =>
  if 2 * k ≤ p.val ∧ p.val < 2 * k + 2 then byteOf v.toNat (p - 2 * k) else s p

theorem pointer_setPointer (s : Sector) {k j : Nat} (v : UInt16) (hj : j < 256) :
    (s.setPointer k v).pointer j = if j = k then v else s.pointer j := by
  split
  · next h =>
    subst h
    refine u16At_of_bytes fun i hi => ?_
    rw [byte_of_lt _ (by omega)]
    simp only [setPointer]
    rw [if_pos (by omega), Nat.add_sub_cancel_left]
  · next h =>
    refine u16At_congr fun i hi => ?_
    rw [byte_of_lt _ (by omega), byte_of_lt _ (by omega)]
    simp only [setPointer]
    rw [if_neg (by omega)]

@[simp] theorem pointer_zero (k : Nat) : zero.pointer k = 0 := by
  refine u16At_of_bytes fun i _ => ?_
  rw [byte_zero]
  simp [byteOf]

end Sector

/-! ## The inode table -/

/-- A slot of the inode table: slot `s` is inode `s % 8` of sector `2 + s / 8`,
so that the scan of sectors 2 to 9 and of the eight inodes of each visits the
slots in increasing order. -/
abbrev Slot := Fin 64

/-- The sector that holds a table slot. -/
def Slot.sector (s : Slot) : Nat := 2 + s.val / 8

/-- The index of a table slot within its sector. -/
def Slot.index (s : Slot) : Nat := s.val % 8

/-- The inode in a table slot. -/
def Disk.inode (d : Disk) (s : Slot) : NrInode := (d s.sector).getInode s.index

/-- Bit `i` of the block bitmap in sector 10. -/
def Disk.bit (d : Disk) (i : Nat) : Bool := (d 10).bit i

theorem Slot.sector_lt (s : Slot) : s.sector < 10 := by
  unfold Slot.sector
  omega

theorem Slot.two_le_sector (s : Slot) : 2 ≤ s.sector := Nat.le_add_right 2 _

/-- The inode table only depends on sectors 2 to 9. -/
theorem Disk.inode_congr {d d' : Disk} (h : ∀ l, 2 ≤ l → l < 10 → d l = d' l) (s : Slot) :
    d.inode s = d'.inode s := by
  rw [Disk.inode, Disk.inode, h _ s.two_le_sector s.sector_lt]

/-- Rewriting one slot of the table in place leaves every other slot as it was. -/
theorem Disk.inode_update (d : Disk) (s : Slot) (ino : NrInode) (t : Slot) :
    Disk.inode (Function.update d s.sector ((d s.sector).putInode s.index ino)) t =
      if t = s then ino else d.inode t := by
  have hs : s.index < 8 := Nat.mod_lt _ (by decide)
  have ht : t.index < 8 := Nat.mod_lt _ (by decide)
  unfold Disk.inode
  by_cases hsec : t.sector = s.sector
  · rw [hsec, Function.update_self]
    by_cases hidx : t.index = s.index
    · have hts : t = s := by
        unfold Slot.sector at hsec
        unfold Slot.index at hidx
        exact Fin.ext (by omega)
      rw [if_pos hts, hidx, Sector.getInode_putInode_same _ _ hs]
    · have hts : t ≠ s := fun h => hidx (by rw [h])
      rw [if_neg hts, Sector.getInode_putInode_of_ne _ _ ht hidx]
  · have hts : t ≠ s := fun h => hsec (by rw [h])
    rw [Function.update_of_ne hsec, if_neg hts]

end Newrex
