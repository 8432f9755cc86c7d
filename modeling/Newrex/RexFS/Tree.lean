import Mathlib.Data.Fintype.Card
import Newrex.Lib.Forest
import Newrex.RexFS.Files

/-!
# RexFS: the directory tree

The inode table as a tree of directories, for every run and every argument, also for
calls that break block ownership: the table sectors are never allocated, so a corrupt
block list cannot reach them as long as `free_block` stays inside its bitmap.

* `Tree`: ids are slots, parents are live directories, and parent ids lead to the
  root. Ids are reused after `rm`, so the invariant is about the ids that are live
  now.
* `Walk`: the current directory is reached from the root by `cd` with names. Each
  directory on the way is the first one of its name, and stays so: commands change
  only the entries of the current directory, which is the end of the way.
* `run_directory_tree` and `run_pwd_cd` are the results for all runs that stay inside the bitmap.
  `stray_free_orphans` and `stray_free_loses_path` are runs that do not.
-/

namespace Newrex

open RexFS TransitionSystem

/-! ## The tree on disk -/

/-- `id` is the id of a live directory. -/
def Disk.IsDir (d : Disk) (id : UInt16) : Prop :=
  ∃ s, (d.inode s).id ≠ 0 ∧ (d.inode s).type = 2 ∧ (d.inode s).id.toNat = id.toNat

/-- The parent id of the inode with that id, by the search of `rexfs_cd` and
`rexfs_pwd`. -/
def Disk.up (d : Disk) (id : UInt16) : Option UInt16 :=
  (d.findInode (·.id.toNat = id.toNat)).map fun s => (d.inode s).parentId

/-- The id of the inode in slot `s`, as `rexfs_cd` stores it in `current_dir_id`. -/
def Disk.idOf (d : Disk) (s : Slot) : UInt16 := UInt16.ofNat (d.inode s).id.toNat

/-- The inode table is a tree. -/
structure Tree (d : Disk) : Prop where
  ids : d.SlotIds
  parents : ∀ s, (d.inode s).id ≠ 0 → (d.inode s).parentId = 0 ∨ d.IsDir (d.inode s).parentId
  ascents : ∀ s, (d.inode s).id ≠ 0 → ∃ l, Ascent d.up 0 (d.idOf s) l

/-- The fields of an inode that make it an entry of a directory. -/
def NrInode.SameEntry (a b : NrInode) : Prop :=
  a.id = b.id ∧ a.parentId = b.parentId ∧ a.type = b.type ∧ a.name = b.name

theorem UInt32.toNat_slot (s : Slot) : (UInt32.ofNat (s.val + 1)).toNat = s.val + 1 := by
  rw [UInt32.toNat_ofNat']
  omega

section Ids

variable {d d' : Disk} {s t : Slot}

theorem Disk.up_congr (h : ∀ t, (d'.inode t).SameEntry (d.inode t)) : d'.up = d.up := by
  funext id
  unfold Disk.up
  have hfind : d'.findInode (·.id.toNat = id.toNat) = d.findInode (·.id.toNat = id.toNat) :=
    Disk.findInode_congr fun t => by rw [(h t).1]
  rw [hfind]
  congr 1
  funext t
  exact (h t).2.1

/-- With `ids`, the inode in a live slot `s` is the only one with id `s + 1`. -/
theorem id_toNat (ids : d.SlotIds) (hlive : (d.inode s).id ≠ 0) :
    (d.inode s).id.toNat = s.val + 1 := by
  rw [ids s hlive, UInt32.toNat_slot]

theorem idOf_toNat (ids : d.SlotIds)
    (hlive : (d.inode s).id ≠ 0) : (d.idOf s).toNat = s.val + 1 := by
  rw [Disk.idOf, id_toNat ids hlive, UInt16.toNat_ofNat']
  omega

theorem live_of_id {id : UInt16} (h0 : id ≠ 0) (h : (d.inode s).id.toNat = id.toNat) :
    (d.inode s).id ≠ 0 := by
  intro hz
  rw [hz] at h
  exact h0 (UInt16.toNat.inj h.symm)

/-- Searching for the id of a live slot finds that slot. -/
theorem findInode_idOf (ids : d.SlotIds)
    (hlive : (d.inode s).id ≠ 0) :
    d.findInode (·.id.toNat = (d.idOf s).toNat) = some s := by
  have hid := idOf_toNat ids hlive
  have hmatch : decide ((d.inode s).id.toNat = (d.idOf s).toNat) = true := by
    rw [decide_eq_true_eq, hid, id_toNat ids hlive]
  cases hfind : d.findInode (·.id.toNat = (d.idOf s).toNat) with
  | none => exact absurd (Disk.findInode_none hfind s) (by rw [hmatch]; decide)
  | some t =>
    have ht := of_decide_eq_true (Disk.findInode_some hfind).1
    have htlive : (d.inode t).id ≠ 0 := by
      intro h0
      rw [h0, hid] at ht
      exact absurd ht (by simp)
    rw [hid, id_toNat ids htlive] at ht
    exact congrArg some (Fin.ext (by omega))

theorem up_idOf (ids : d.SlotIds)
    (hlive : (d.inode s).id ≠ 0) : d.up (d.idOf s) = some (d.inode s).parentId := by
  rw [Disk.up, findInode_idOf ids hlive]
  rfl

/-- An id other than 0 that the search finds is the id of a live slot. -/
theorem exists_of_up (ids : d.SlotIds)
    {id p : UInt16} (h0 : id ≠ 0) (hup : d.up id = some p) :
    ∃ s, (d.inode s).id ≠ 0 ∧ d.idOf s = id ∧ (d.inode s).parentId = p := by
  obtain ⟨s, hs, hp⟩ := Option.map_eq_some_iff.mp hup
  have hid := of_decide_eq_true (Disk.findInode_some hs).1
  have hlive := live_of_id h0 hid
  refine ⟨s, hlive, UInt16.toNat.inj ?_, hp⟩
  rw [idOf_toNat ids hlive, ← id_toNat ids hlive, hid]

theorem idOf_inj (ids : d.SlotIds)
    (hs : (d.inode s).id ≠ 0) (ht : (d.inode t).id ≠ 0) (h : d.idOf s = d.idOf t) : s = t := by
  have h1 := idOf_toNat ids hs
  have h2 := idOf_toNat ids ht
  rw [h] at h1
  exact Fin.ext (by omega)

theorem idOf_ne_zero (ids : d.SlotIds)
    (hlive : (d.inode s).id ≠ 0) : d.idOf s ≠ 0 := by
  intro h
  have := idOf_toNat ids hlive
  rw [h] at this
  exact absurd this (by simp)

/-- The directory with id `d.idOf s` is the one in slot `s`. -/
theorem isDir_idOf (ids : d.SlotIds)
    (hlive : (d.inode s).id ≠ 0) : d.IsDir (d.idOf s) ↔ (d.inode s).type = 2 := by
  constructor
  · rintro ⟨t, ht, htype, hid⟩
    rw [idOf_toNat ids hlive, id_toNat ids ht] at hid
    have hts : t = s := Fin.ext (by omega)
    rw [← hts]
    exact htype
  · intro htype
    exact ⟨s, hlive, htype, by rw [idOf_toNat ids hlive, id_toNat ids hlive]⟩

end Ids

/-! ## The tree is kept -/

namespace Tree

variable {d d' : Disk} {s : Slot}

/-- A table without live inodes. -/
theorem empty (hfree : ∀ s, (d.inode s).id = 0) : Tree d :=
  ⟨fun s hs => absurd (hfree s) hs, fun s hs => absurd (hfree s) hs,
    fun s hs => absurd (hfree s) hs⟩

/-- Sizes and block pointers do not matter. -/
theorem same (h : Tree d) (heq : ∀ t, (d'.inode t).SameEntry (d.inode t)) : Tree d' := by
  have hdir : ∀ id, d.IsDir id → d'.IsDir id := by
    rintro id ⟨t, hlive, htype, hid⟩
    exact ⟨t, by rw [(heq t).1]; exact hlive, by rw [(heq t).2.2.1]; exact htype,
      by rw [(heq t).1]; exact hid⟩
  refine ⟨?_, ?_, ?_⟩
  · intro t ht
    rw [(heq t).1] at ht ⊢
    exact h.ids t ht
  · intro t ht
    rw [(heq t).1] at ht
    rw [(heq t).2.1]
    exact (h.parents t ht).imp_right (hdir _)
  · intro t ht
    rw [(heq t).1] at ht
    rw [Disk.up_congr heq, Disk.idOf, (heq t).1]
    exact h.ascents t ht

/-- At most 64 ids can be visited. -/
theorem ascent_length_le (h : Tree d) {id : UInt16} {l : List UInt16} (ha : Ascent d.up 0 id l) :
    l.length ≤ 64 := by
  have hcard : (Finset.univ.image d.idOf).card ≤ 64 := by
    have := Finset.card_image_le (s := (Finset.univ : Finset Slot)) (f := d.idOf)
    rwa [Finset.card_univ, Fintype.card_fin] at this
  refine Nat.le_trans (ha.length_le fun y hy hup => ?_) hcard
  obtain ⟨p, hp⟩ := Option.isSome_iff_exists.mp hup
  obtain ⟨t, _, hid, _⟩ := exists_of_up h.ids hy hp
  exact Finset.mem_image.mpr ⟨t, Finset.mem_univ t, hid⟩

/-- An ascent from the root or from a directory. -/
theorem ascent_of_dir (h : Tree d) {id : UInt16} (hid : id = 0 ∨ d.IsDir id) :
    ∃ l, Ascent d.up 0 id l := by
  rcases hid with rfl | ⟨s, hlive, _, heq⟩
  · exact ⟨[], .root⟩
  · have : d.idOf s = id := by
      refine UInt16.toNat.inj ?_
      rw [idOf_toNat h.ids hlive, ← id_toNat h.ids hlive, heq]
    rw [← this]
    exact h.ascents s hlive

/-- `mkdir` or `touch`: a new inode in a free slot, with the root or a directory as
its parent. -/
theorem create (h : Tree d) (hfree : (d.inode s).id = 0) {ino : NrInode}
    (hid : ino.id = UInt32.ofNat (s.val + 1))
    (hdir : ino.parentId = 0 ∨ d.IsDir ino.parentId) : Tree (d.setInode s ino) := by
  have hself : (d.setInode s ino).inode s = ino := Disk.setInode_inode_self d s ino
  have hother : ∀ t, t ≠ s → (d.setInode s ino).inode t = d.inode t :=
    fun t ht => Disk.setInode_inode_of_ne d ino ht
  have hne : ∀ t, (d.inode t).id ≠ 0 → t ≠ s := by
    rintro t ht rfl
    exact ht hfree
  have ids' : (d.setInode s ino).SlotIds := by
    intro t ht
    by_cases hts : t = s
    · subst hts
      rw [hself]
      exact hid
    · rw [hother t hts] at ht ⊢
      exact h.ids t ht
  have hlive : ((d.setInode s ino).inode s).id ≠ 0 := by
    rw [hself, hid]
    intro h0
    have := UInt32.toNat_slot s
    rw [h0] at this
    exact absurd this (by simp)
  have hkeepDir : ∀ id, d.IsDir id → (d.setInode s ino).IsDir id := by
    rintro id ⟨t, ht, htype, heq⟩
    refine ⟨t, ?_, ?_, ?_⟩ <;> rw [hother t (hne t ht)]
    · exact ht
    · exact htype
    · exact heq
  have hidOf : ∀ t, t ≠ s → (d.setInode s ino).idOf t = d.idOf t := by
    intro t hts
    rw [Disk.idOf, hother t hts, Disk.idOf]
  -- every ascent of the old tree is one of the new tree
  have hkeep : ∀ id l, Ascent d.up 0 id l → Ascent (d.setInode s ino).up 0 id l := by
    intro id l ha
    refine ha.congr fun y hy => ?_
    obtain ⟨hy0, hup⟩ := ha.up_of_mem hy
    obtain ⟨p, hp⟩ := Option.isSome_iff_exists.mp hup
    obtain ⟨t, ht, rfl, hpar⟩ := exists_of_up h.ids hy0 hp
    have hts := hne t ht
    have ht' : ((d.setInode s ino).inode t).id ≠ 0 := by rw [hother t hts]; exact ht
    rw [hp, ← hidOf t hts, up_idOf ids' ht', hother t hts, hpar]
  refine ⟨ids', ?_, ?_⟩
  · intro t ht
    by_cases hts : t = s
    · subst hts
      rw [hself]
      exact hdir.imp_right (hkeepDir _)
    · rw [hother t hts] at ht ⊢
      exact (h.parents t ht).imp_right (hkeepDir _)
  · intro t ht
    by_cases hts : t = s
    · subst hts
      obtain ⟨l, hl⟩ := h.ascent_of_dir hdir
      refine ⟨_ :: l, .next (idOf_ne_zero ids' hlive) (up_idOf ids' hlive) ?_⟩
      rw [hself]
      exact hkeep _ l hl
    · rw [hother t hts] at ht
      obtain ⟨l, hl⟩ := h.ascents t ht
      exact ⟨l, by rw [hidOf t hts]; exact hkeep _ l hl⟩

/-- `rm` of an inode that is nobody's parent. -/
theorem remove (h : Tree d) (hlive : (d.inode s).id ≠ 0)
    (hleaf : ∀ t, (d.inode t).id ≠ 0 → (d.inode t).parentId ≠ d.idOf s)
    (hself : (d'.inode s).id = 0) (hother : ∀ t, t ≠ s → (d'.inode t).SameEntry (d.inode t)) :
    Tree d' := by
  have hne : ∀ t, (d'.inode t).id ≠ 0 → t ≠ s := by
    rintro t ht rfl
    exact ht hself
  have hold : ∀ t, (d'.inode t).id ≠ 0 → (d.inode t).id ≠ 0 := by
    intro t ht
    rw [← (hother t (hne t ht)).1]
    exact ht
  have ids' : d'.SlotIds := by
    intro t ht
    rw [(hother t (hne t ht)).1]
    exact h.ids t (hold t ht)
  have hidOf : ∀ t, t ≠ s → d'.idOf t = d.idOf t := by
    intro t hts
    rw [Disk.idOf, (hother t hts).1, Disk.idOf]
  have hkeepDir : ∀ id, id ≠ d.idOf s → d.IsDir id → d'.IsDir id := by
    rintro id hid ⟨t, ht, htype, heq⟩
    have hts : t ≠ s := by
      rintro rfl
      refine hid (UInt16.toNat.inj ?_)
      rw [← heq, idOf_toNat h.ids ht, id_toNat h.ids ht]
    obtain ⟨h1, _, h3, _⟩ := hother t hts
    exact ⟨t, by rw [h1]; exact ht, by rw [h3]; exact htype, by rw [h1]; exact heq⟩
  refine ⟨ids', ?_, ?_⟩
  · intro t ht
    obtain ⟨_, h2, _, _⟩ := hother t (hne t ht)
    rw [h2]
    exact (h.parents t (hold t ht)).imp_right (hkeepDir _ (hleaf t (hold t ht)))
  · intro t ht
    have hts := hne t ht
    obtain ⟨l, hl⟩ := h.ascents t (hold t ht)
    have hout : d.idOf s ∉ l := by
      refine hl.avoid (fun heq => hts (idOf_inj h.ids (hold t ht) hlive heq)) fun y hy hup => ?_
      obtain ⟨u, hu, _, hpar⟩ := exists_of_up h.ids hy hup
      exact hleaf u hu hpar
    refine ⟨l, ?_⟩
    rw [hidOf t hts]
    refine hl.congr fun y hy => ?_
    obtain ⟨hy0, hup⟩ := hl.up_of_mem hy
    obtain ⟨p, hp⟩ := Option.isSome_iff_exists.mp hup
    obtain ⟨u, hu, rfl, hpar⟩ := exists_of_up h.ids hy0 hp
    have hus : u ≠ s := by
      rintro rfl
      exact hout hy
    obtain ⟨h1, h2, _, _⟩ := hother u hus
    have hu' : (d'.inode u).id ≠ 0 := by rw [h1]; exact hu
    rw [hp, ← hidOf u hus, up_idOf ids' hu', h2, hpar]

end Tree

/-! ## The way to the current directory -/

/-- `cd` with these names leads from the root to the directory `cur`: each name is
one that `rexfs_cd` looks up, and the search finds the next directory. -/
inductive Walk (d : Disk) : UInt16 → List (List UInt8) → Prop
  | root : Walk d 0 []
  | child {dir : UInt16} {s : Slot} {name : List UInt8} {names : List (List UInt8)} :
      Walk d dir names → name ≠ [] → name ≠ slash → name ≠ dotDot →
      d.findInode (·.isEntryOf 2 dir name) = some s → Walk d (d.idOf s) (names ++ [name])

theorem NrInode.SameEntry.isEntryOf {a b : NrInode} (h : a.SameEntry b) (type dir : UInt16)
    (name : List UInt8) : a.isEntryOf type dir name = b.isEntryOf type dir name := by
  obtain ⟨h1, h2, h3, h4⟩ := h
  rw [Bool.eq_iff_iff, isEntryOf_iff, isEntryOf_iff, NrInode.cName, NrInode.cName, h1, h2, h3, h4]

namespace Walk

variable {d d' : Disk} {cur : UInt16} {names : List (List UInt8)}

theorem isDir (h : Walk d cur names) (hT : Tree d) : cur = 0 ∨ d.IsDir cur := by
  cases h with
  | root => exact Or.inl rfl
  | child _ _ _ _ hfind =>
    obtain ⟨hlive, _, htype, _⟩ := isEntryOf_iff.mp (Disk.findInode_some hfind).1
    exact Or.inr ((isDir_idOf hT.ids hlive).mpr htype)

/-- The ids visited upwards are as many as the names. -/
theorem ascent (h : Walk d cur names) (hT : Tree d) :
    ∃ l, Ascent d.up 0 cur l ∧ l.length = names.length := by
  induction h with
  | root => exact ⟨[], .root, rfl⟩
  | child _ _ _ _ hfind ih =>
    obtain ⟨hlive, hpar, _, _⟩ := isEntryOf_iff.mp (Disk.findInode_some hfind).1
    obtain ⟨l, hl, hlen⟩ := ih
    refine ⟨_ :: l, .next (idOf_ne_zero hT.ids hlive) (up_idOf hT.ids hlive) ?_, ?_⟩
    · rw [hpar]
      exact hl
    · rw [List.length_cons, hlen, List.length_append, List.length_singleton]

/-- All ways to a directory have the same length. -/
theorem length_unique (h : Walk d cur names) {names' : List (List UInt8)} (h' : Walk d cur names')
    (hT : Tree d) : names.length = names'.length := by
  obtain ⟨l, hl, hlen⟩ := h.ascent hT
  obtain ⟨l', hl', hlen'⟩ := h'.ascent hT
  rw [← hlen, ← hlen', hl.unique hl']

/-- A walk stays when the searches in the directories on the way give the same. -/
theorem congr (h : Walk d cur names)
    (hsame : ∀ dir ns name s, Walk d dir ns → ns.length < names.length →
      d.findInode (·.isEntryOf 2 dir name) = some s →
      d'.findInode (·.isEntryOf 2 dir name) = some s ∧ (d'.inode s).id = (d.inode s).id) :
    Walk d' cur names := by
  induction h with
  | root => exact .root
  | @child dir s name names hwalk hne hslash hdots hfind ih =>
    have hlen : names.length < (names ++ [name]).length := by simp
    obtain ⟨hfind', hid⟩ := hsame dir names name s hwalk hlen hfind
    have hidOf : d.idOf s = d'.idOf s := by rw [Disk.idOf, Disk.idOf, hid]
    rw [hidOf]
    refine .child (ih ?_) hne hslash hdots hfind'
    intro dir' ns name' s' hw hlt
    exact hsame dir' ns name' s' hw (Nat.lt_trans hlt hlen)

/-- The parent of a directory, found as `rexfs_cd` finds it for `".."`. -/
theorem parent (h : Walk d cur names) (hT : Tree d) (h0 : cur ≠ 0) {s : Slot}
    (hfind : d.findInode (·.id.toNat = cur.toNat) = some s) :
    ∃ names', Walk d (d.inode s).parentId names' := by
  cases h with
  | root => exact absurd rfl h0
  | @child dir t name names' hwalk _ _ _ hentry =>
    obtain ⟨hlive, hpar, _, _⟩ := isEntryOf_iff.mp (Disk.findInode_some hentry).1
    rw [findInode_idOf hT.ids hlive] at hfind
    cases hfind
    rw [hpar]
    exact ⟨names', hwalk⟩

/-- Changes of sizes and block pointers. -/
theorem same (h : Walk d cur names) (heq : ∀ t, (d'.inode t).SameEntry (d.inode t)) :
    Walk d' cur names := by
  refine h.congr fun dir _ name s _ _ hfind => ⟨?_, (heq s).1⟩
  rw [Disk.findInode_congr fun t => (heq t).isEntryOf 2 dir name]
  exact hfind

/-- Changes of entries of the directory `cur` itself do not touch the way to it: the
other directories on the way have shorter ways, so none of them is `cur`. -/
theorem outside (h : Walk d cur names) (hT : Tree d)
    (hout : ∀ t dir name, dir ≠ cur →
      (d'.inode t).isEntryOf 2 dir name = (d.inode t).isEntryOf 2 dir name ∧
      ((d.inode t).isEntryOf 2 dir name = true → (d'.inode t).id = (d.inode t).id)) :
    Walk d' cur names := by
  refine h.congr fun dir ns name s hwalk hlt hfind => ?_
  have hne : dir ≠ cur := by
    rintro rfl
    have := hwalk.length_unique h hT
    omega
  refine ⟨?_, (hout s dir name hne).2 (Disk.findInode_some hfind).1⟩
  rw [Disk.findInode_congr fun t => (hout t dir name hne).1]
  exact hfind

end Walk

/-! ## Runs -/

/-- No superblock that `rexfs_mount` accepts. -/
def Disk.Unsigned (d : Disk) : Prop :=
  (NrSuperblock.ofSector (d 1)).magic ≠ rexfsMagic ∨
    (NrSuperblock.ofSector (d 1)).version ≠ rexfsVersion

/-- A formatted disk with a tree on it. -/
structure WellFormed (d : Disk) : Prop where
  offset : (NrSuperblock.ofSector (d 1)).dataOffset = 11
  tree : Tree d

/-- The invariant of all runs. -/
structure Navigable (st : RexFS) : Prop where
  disk : st.disk.Unsigned ∨ WellFormed st.disk
  mounted : st.fsMounted = true → st.activeSb.dataOffset = 11 ∧ WellFormed st.disk ∧
    ∃ names, Walk st.disk st.currentDirId names

/-- All runs with any arguments, in which `mkfs` is used only while unmounted. They
start unmounted, with a disk that has no file system or was just formatted. -/
def directoryRuns : TransitionSystem RexFS Op where
  init := fun st => st.fsMounted = false ∧
    (st.disk.Unsigned ∨ ∃ st0 capacity, capacity ≠ 0 ∧ st = rexfsMkfs st0 capacity)
  allowed := fun st op => ∀ capacity, op = .mkfs capacity → st.fsMounted = false
  step := fun st op => op.step st

theorem Formatted.wellFormed {capacity : UInt32} {d d' : Disk} (h : Formatted capacity d d') :
    WellFormed d' where
  offset := by rw [h.superblock, NrSuperblock.ofSector_toSector]; rfl
  tree := Tree.empty (format_table_free h.zeroed)

/-- A change that keeps the superblock and every entry. -/
theorem WellFormed.same {d d' : Disk} (h : WellFormed d)
    (hoff : (NrSuperblock.ofSector (d' 1)).dataOffset = (NrSuperblock.ofSector (d 1)).dataOffset)
    (heq : ∀ t, (d'.inode t).SameEntry (d.inode t)) : WellFormed d' :=
  ⟨hoff.trans h.offset, h.tree.same heq⟩

theorem NrInode.SameEntry.of_eq {a b : NrInode} (h : a = b) : a.SameEntry b := by
  subst h
  exact ⟨rfl, rfl, rfl, rfl⟩

/-- Only the superblock sector changes. -/
theorem sameEntry_update_one (d : Disk) (b : Sector) (t : Slot) :
    (Disk.inode (Function.update d 1 b) t).SameEntry (d.inode t) :=
  .of_eq (Disk.inode_congr (fun l hl _ => Function.update_of_ne (by omega) _ _) t)

/-- A new superblock with the same data offset. -/
theorem WellFormed.superblock {d : Disk} (h : WellFormed d) {sb : NrSuperblock}
    (hoff : sb.dataOffset = (NrSuperblock.ofSector (d 1)).dataOffset) :
    WellFormed (Function.update d 1 sb.toSector) := by
  refine h.same ?_ (sameEntry_update_one _ _)
  rw [Function.update_self, NrSuperblock.ofSector_toSector, hoff]

theorem Wrote.sameEntry {limit n : Nat} {data : List UInt8} {st st0 : RexFS} {s : Slot}
    {r : RexFS × NrInode × Nat} {bs leak : List Nat} {ind : Nat}
    (hW : Wrote limit data n (st.freeInodeBlocks (st.disk.inode s)).disk st0
      (clearPointers (st.disk.inode s)) r bs ind leak) (size : UInt32) (t : Slot) :
    ((r.1.disk.setInode s { r.2.1 with size := size }).inode t).SameEntry (st.disk.inode t) := by
  obtain ⟨db, ib, hr⟩ := hW.sameMeta
  by_cases hts : t = s
  · subst hts
    rw [Disk.setInode_inode_self, hr]
    exact ⟨rfl, rfl, rfl, rfl⟩
  · rw [Disk.setInode_inode_of_ne _ _ hts, hW.inode t]
    exact .of_eq rfl

/-- A free slot, or an entry of the current directory, is no entry of another one. -/
theorem NrInode.isEntryOf_elsewhere {ino : NrInode} {cur dir : UInt16} {name : List UInt8}
    (h : ino.id = 0 ∨ ino.parentId = cur) (hdir : dir ≠ cur) :
    ino.isEntryOf 2 dir name = false := by
  rw [Bool.eq_false_iff]
  intro hent
  obtain ⟨hlive, hpar, _⟩ := isEntryOf_iff.mp hent
  rcases h with hdead | hcur
  · exact hlive hdead
  · exact hdir (hpar.symm.trans hcur)

/-- A change of one slot that is free or an entry of the current directory, before and after. -/
theorem Navigable.change_entry {d d' : Disk} {cur : UInt16} {names : List (List UInt8)} {s : Slot}
    (hT : Tree d) (hwalk : Walk d cur names)
    (hold : (d.inode s).id = 0 ∨ (d.inode s).parentId = cur)
    (hnew : (d'.inode s).id = 0 ∨ (d'.inode s).parentId = cur)
    (hother : ∀ t, t ≠ s → (d'.inode t).SameEntry (d.inode t)) : Walk d' cur names := by
  refine hwalk.outside hT fun t dir name hdir => ?_
  rcases eq_or_ne t s with rfl | hts
  · have hfalse : (d.inode t).isEntryOf 2 dir name = false :=
      NrInode.isEntryOf_elsewhere hold hdir
    have hfalse' : (d'.inode t).isEntryOf 2 dir name = false :=
      NrInode.isEntryOf_elsewhere hnew hdir
    exact ⟨by rw [hfalse, hfalse'], fun h => by rw [hfalse] at h; exact absurd h (by decide)⟩
  · exact ⟨(hother t hts).isEntryOf 2 dir name, fun _ => (hother t hts).1⟩

/-- The current directory after `cd`. -/
theorem CdTarget.walk {st : RexFS} {id : UInt16} (h : CdTarget st id) (hT : Tree st.disk)
    {names : List (List UInt8)} (hwalk : Walk st.disk st.currentDirId names) :
    ∃ names', Walk st.disk id names' := by
  cases h with
  | root => exact ⟨[], .root⟩
  | parent h0 hfind => exact hwalk.parent hT h0 hfind
  | child hne hslash hdots hfind => exact ⟨_, .child hwalk hne hslash hdots hfind⟩

/-- The blocks of the inode table are out of reach of the block commands, so that an
inode removed in slot `s` is the only change of the table. -/
theorem remove_file_entries {st : RexFS} {s : Slot} (t : Slot) (hts : t ≠ s) (ino : NrInode) :
    (((st.freeInodeBlocks (st.disk.inode s)).disk.setInode s ino).inode t).SameEntry
      (st.disk.inode t) := by
  rw [Disk.setInode_inode_of_ne _ _ hts, freeInodeBlocks_inode]
  exact .of_eq rfl

namespace Navigable

variable {st st' : RexFS}

/-- A command that keeps every entry. -/
theorem keep_entries (h : Navigable st) (hmount : st.fsMounted = true)
    (hm : st'.toMountState = st.toMountState)
    (hsuper : (NrSuperblock.ofSector (st'.disk 1)).dataOffset =
      (NrSuperblock.ofSector (st.disk 1)).dataOffset)
    (heq : ∀ t, (st'.disk.inode t).SameEntry (st.disk.inode t)) : Navigable st' := by
  obtain ⟨hoff, hwf, names, hwalk⟩ := h.mounted hmount
  have hwf' : WellFormed st'.disk := hwf.same hsuper heq
  refine ⟨Or.inr hwf', fun _ => ?_⟩
  rw [hm]
  exact ⟨hoff, hwf', names, hwalk.same heq⟩

/-- A command that removes the inode in slot `s`, an entry of the current directory that
is nobody's parent. -/
theorem remove_leaf (h : Navigable st) (hmount : st.fsMounted = true)
    (hm : st'.toMountState = st.toMountState)
    (hsuper : (NrSuperblock.ofSector (st'.disk 1)).dataOffset =
      (NrSuperblock.ofSector (st.disk 1)).dataOffset) {s : Slot}
    (hlive : (st.disk.inode s).id ≠ 0) (hpar : (st.disk.inode s).parentId = st.currentDirId)
    (hleaf : ∀ t, (st.disk.inode t).id ≠ 0 → (st.disk.inode t).parentId ≠ st.disk.idOf s)
    (hself : (st'.disk.inode s).id = 0)
    (hother : ∀ t, t ≠ s → (st'.disk.inode t).SameEntry (st.disk.inode t)) : Navigable st' := by
  obtain ⟨hoff, hwf, names, hwalk⟩ := h.mounted hmount
  have hwf' : WellFormed st'.disk :=
    ⟨hsuper.trans hwf.offset, hwf.tree.remove hlive hleaf hself hother⟩
  refine ⟨Or.inr hwf', fun _ => ?_⟩
  rw [hm]
  exact ⟨hoff, hwf', names, change_entry hwf.tree hwalk (Or.inr hpar) (Or.inl hself) hother⟩

/-- A command that puts a new inode into the empty slot `s`, an entry of the current
directory. -/
theorem add_entry (h : Navigable st) (hmount : st.fsMounted = true)
    (hm : st'.toMountState = st.toMountState) {s : Slot} {ino : NrInode}
    (hdead : (st.disk.inode s).id = 0) (hid : ino.id = UInt32.ofNat (s.val + 1))
    (hpar : ino.parentId = st.currentDirId) (hd : st'.disk = st.disk.setInode s ino) :
    Navigable st' := by
  obtain ⟨hoff, hwf, names, hwalk⟩ := h.mounted hmount
  have hdir := hwalk.isDir hwf.tree
  rw [← hpar] at hdir
  have hwf' : WellFormed st'.disk := by
    rw [hd]
    exact ⟨by rw [Disk.setInode_one]; exact hwf.offset, hwf.tree.create hdead hid hdir⟩
  refine ⟨Or.inr hwf', fun _ => ?_⟩
  rw [hm]
  refine ⟨hoff, hwf', names, change_entry hwf.tree hwalk (Or.inl hdead) (Or.inr ?_) fun t hts => ?_⟩
  · rw [hd, Disk.setInode_inode_self]
    exact hpar
  · rw [hd, Disk.setInode_inode_of_ne _ _ hts]
    exact .of_eq rfl

/-- A `mount` that accepts the superblock. -/
theorem mount (h : Navigable st) {sb : NrSuperblock} (hsb : sb = .ofSector (st.disk 1))
    (hmagic : sb.magic = rexfsMagic) (hversion : sb.version = rexfsVersion)
    (hd : st'.disk = Function.update st.disk 1 { sb with cleanShutdown := 0 }.toSector)
    (hm : st'.toMountState = ⟨true, { sb with cleanShutdown := 0 }, 0⟩) : Navigable st' := by
  have hwf : WellFormed st.disk := by
    rcases h.disk with hun | hwf
    · rw [Disk.Unsigned, ← hsb] at hun
      exact absurd hun (by simp [hmagic, hversion])
    · exact hwf
  have hoff := hwf.offset
  have hwf' : WellFormed st'.disk := by
    rw [hd, hsb]
    exact hwf.superblock rfl
  rw [← hsb] at hoff
  refine ⟨Or.inr hwf', fun _ => ?_⟩
  rw [hm]
  exact ⟨hoff, hwf', [], .root⟩

end Navigable

/-- The invariant is kept by every command, whatever its effect. -/
theorem effect_navigable {st st' : RexFS} {op : Op}
    (hmkfs : ∀ capacity, op = .mkfs capacity → capacity ≠ 0 → st.fsMounted = false)
    (h : Navigable st) (he : Effect st op st') : Navigable st' := by
  cases he with
  | same hd hm _ =>
    refine ⟨by rw [hd]; exact h.disk, fun hmount => ?_⟩
    rw [hm] at hmount ⊢
    rw [hd]
    exact h.mounted hmount
  | format capacity hop h0 hformat hm _ =>
    have hun := hmkfs capacity hop h0
    refine ⟨Or.inr hformat.wellFormed, fun hmount => ?_⟩
    rw [hm, hun] at hmount
    exact absurd hmount (by decide)
  | mounted sb _ hsb hmagic hversion hd hm _ =>
    exact h.mount hsb hmagic hversion hd hm
  | unmounted sb _ hmount hsb hd hm _ =>
    obtain ⟨_, hwf, _⟩ := h.mounted hmount
    refine ⟨Or.inr ?_, fun hmount' => ?_⟩
    · rw [hd, hsb]
      exact hwf.superblock rfl
    · rw [hm] at hmount'
      exact absurd hmount' Bool.false_ne_true
  | chdir id hmount htarget hd hm _ =>
    obtain ⟨hoff, hwf, names, hwalk⟩ := h.mounted hmount
    refine ⟨by rw [hd]; exact Or.inr hwf, fun _ => ?_⟩
    rw [hm, hd]
    exact ⟨hoff, hwf, htarget.walk hwf.tree hwalk⟩
  | create s type name hmount _ _ _ _ _ hfree hd hm _ =>
    have hdead : (st.disk.inode s).id = 0 := by simpa using (Disk.findInode_some hfree).1
    exact h.add_entry hmount hm hdead rfl rfl hd
  | rmdir s name hmount _ hfind htype hkids hd hm _ =>
    obtain ⟨_, hwf, _⟩ := h.mounted hmount
    obtain ⟨hlive, hpar, _⟩ := isEntry_iff.mp (Disk.findInode_some hfind).1
    refine h.remove_leaf hmount hm ?_ hlive hpar ?_ ?_ ?_
    · rw [hd, Disk.setInode_one]
    · intro t ht heq
      refine hkids t ht ?_
      rw [heq, idOf_toNat hwf.tree.ids hlive, id_toNat hwf.tree.ids hlive]
    · rw [hd, Disk.setInode_inode_self]
    · intro t hts
      rw [hd, Disk.setInode_inode_of_ne _ _ hts]
      exact .of_eq rfl
  | remove s name hmount _ hfind htype hd hm _ =>
    obtain ⟨_, hwf, _⟩ := h.mounted hmount
    obtain ⟨hlive, hpar, _⟩ := isEntry_iff.mp (Disk.findInode_some hfind).1
    refine h.remove_leaf hmount hm ?_ hlive hpar ?_ ?_ ?_
    · rw [hd, Disk.setInode_one, freeInodeBlocks_disk_of_ne _ _ (by decide)]
    · -- only directories are parents
      intro t ht heq
      rcases hwf.tree.parents t ht with h0 | hdir
      · exact idOf_ne_zero hwf.tree.ids hlive (heq.symm.trans h0)
      · rw [heq, isDir_idOf hwf.tree.ids hlive] at hdir
        exact htype hdir
    · rw [hd, Disk.setInode_inode_self]
    · intro t hts
      rw [hd]
      exact remove_file_entries t hts _
  | freed s name hmount _ _ _ hd hm _ =>
    refine h.keep_entries hmount hm ?_ fun t => ?_
    · rw [hd, freeInodeBlocks_disk_of_ne _ _ (by decide)]
    · rw [hd, freeInodeBlocks_inode]
      exact .of_eq rfl
  | rewrite s name r bs ind leak hmount _ _ _ hW hd hm _ =>
    refine h.keep_entries hmount hm ?_ fun t => ?_
    · rw [hd, Disk.setInode_one, hW.filled.alloc.low (by decide),
        freeInodeBlocks_disk_of_ne _ _ (by decide)]
    · rw [hd]
      exact hW.sameEntry _ t

/-- The invariant holds in every state of a run. -/
theorem reachable_navigable {st : RexFS} (h : directoryRuns.Reachable st) : Navigable st := by
  refine h.invariant ?_ ?_
  · rintro st ⟨hm, hun | ⟨st0, capacity, h0, rfl⟩⟩
    · exact ⟨Or.inl hun, fun hmount => by rw [hm] at hmount; exact absurd hmount (by decide)⟩
    · refine ⟨Or.inr (mkfs_formatted st0 h0).1.wellFormed, fun hmount => ?_⟩
      rw [hm] at hmount
      exact absurd hmount (by decide)
  · intro st op _ hnav hallowed
    exact effect_navigable (fun capacity hop _ => hallowed capacity hop) hnav
      (step_effect st (fun hm => (hnav.mounted hm).1) op)

/-- Commands other than `mkfs` that leave the flag down. -/
theorem directoryRuns_run {st : RexFS} (h : (insideRuns directoryRuns).Reachable st) {ops : List Op}
    (hmkfs : ∀ op, op ∈ ops → ∀ capacity, op ≠ .mkfs capacity)
    (hflag : (ops.foldl Op.step st).outOfBounds = false) :
    (insideRuns directoryRuns).Reachable (ops.foldl Op.step st) := by
  refine insideRuns_isRun h fun pre op hpre => ⟨fun capacity hop => ?_, ?_⟩
  · have hmem := hpre.subset (List.mem_append_right pre List.mem_cons_self)
    exact absurd hop (hmkfs op hmem capacity)
  · exact (staysInside_of_unflagged hflag).2 pre op hpre

/-- The directory tree. In every mounted state of a run that stays inside the bitmap, the current
directory and every parent id is the root or a live directory, and parent ids lead from any live
inode and from the current directory to the root, in at most 64 steps and without
visiting an id twice. -/
theorem run_directory_tree {st : RexFS} (h : (insideRuns directoryRuns).Reachable st)
    (hmounted : st.fsMounted = true) :
    (st.currentDirId = 0 ∨ st.disk.IsDir st.currentDirId) ∧
    (∀ s, (st.disk.inode s).id ≠ 0 →
      (st.disk.inode s).parentId = 0 ∨ st.disk.IsDir (st.disk.inode s).parentId) ∧
    (∀ s, (st.disk.inode s).id ≠ 0 →
      ∃ path, Ascent st.disk.up 0 (st.disk.idOf s) path ∧ path.Nodup ∧ path.length ≤ 64) ∧
    ∃ path, Ascent st.disk.up 0 st.currentDirId path ∧ path.Nodup ∧ path.length ≤ 64 := by
  obtain ⟨_, hwf, names, hwalk⟩ := (reachable_navigable (insideRuns_reachable h)).mounted hmounted
  have hdir := hwalk.isDir hwf.tree
  refine ⟨hdir, hwf.tree.parents, ?_, ?_⟩
  · intro s hs
    obtain ⟨path, hpath⟩ := hwf.tree.ascents s hs
    exact ⟨path, hpath, hpath.nodup, hwf.tree.ascent_length_le hpath⟩
  · obtain ⟨path, hpath⟩ := hwf.tree.ascent_of_dir hdir
    exact ⟨path, hpath, hpath.nodup, hwf.tree.ascent_length_le hpath⟩

theorem formatted_reachable {capacity : UInt32} (h0 : capacity ≠ 0) :
    (insideRuns directoryRuns).Reachable ((boot fun _ => Sector.zero).rexfsMkfs capacity) := by
  refine .init ⟨?_, Or.inr ⟨_, capacity, h0, rfl⟩⟩
  rw [(mkfs_formatted _ h0).2.1]
  rfl

/-- A small tree: the directory `d`, the file `f` in it, and `d` as the current
directory. -/
def sampleTree : RexFS :=
  [Op.mount, .mkdir (.ofBuffer [100]), .cd (.ofBuffer [100]),
    .touch (.ofBuffer [102])].foldl Op.step ((boot fun _ => Sector.zero).rexfsMkfs 16)

theorem sampleTree_reachable : (insideRuns directoryRuns).Reachable sampleTree := by
  refine directoryRuns_run (formatted_reachable (by decide)) ?_ (by decide +kernel)
  simp

theorem run_directory_tree_sample :
    sampleTree.currentDirId = 1 ∧ (sampleTree.currentDirId = 0 ∨ sampleTree.disk.IsDir 1) := by
  have hcur : sampleTree.currentDirId = 1 := by decide +kernel
  have htree := (run_directory_tree sampleTree_reachable (by decide +kernel)).1
  rw [hcur] at htree ⊢
  exact ⟨rfl, htree⟩

/-- A directory `d` with a file `a` that frees block 4305, and `d` as the current directory. -/
def plantedTree : RexFS :=
  ([Op.mount, .mkdir (.ofBuffer [100]), .cd (.ofBuffer [100]), .touch (.ofBuffer [97])] ++
    plantPointer 0xD1 0x10 (by decide +kernel)).foldl Op.step
    ((boot fun _ => Sector.zero).rexfsMkfs 64)

/-- `rm a` removes the directory in the first slot in place of `a` in the second. -/
def orphanedTree : RexFS := plantedTree.rmStrayed secondSlot firstSlot

/-- A directory made in the directory that is gone takes its slot, and is its own parent. -/
def loopedTree : RexFS := orphanedTree.rexfsMkdir (.ofBuffer [122])

/-- The run stays inside the bitmap until `rm a` leaves it. The three states are evaluated
together, as the run up to the first is long. -/
theorem plantedTree_eval : plantedTree.outOfBounds = false ∧
    (¬ (Op.rm (.ofBuffer [97])).StaysInside plantedTree ∧
      (Op.rm (.ofBuffer [97])).resolved plantedTree = some secondSlot) ∧
    (orphanedTree.fsMounted = true ∧
      ¬ (orphanedTree.currentDirId = 0 ∨ orphanedTree.disk.IsDir orphanedTree.currentDirId) ∧
      (orphanedTree.disk.inode 1).id ≠ 0 ∧
      ¬ ((orphanedTree.disk.inode 1).parentId = 0 ∨
        orphanedTree.disk.IsDir (orphanedTree.disk.inode 1).parentId)) ∧
    loopedTree.fsMounted = true ∧ loopedTree.currentDirId ≠ 0 ∧
      loopedTree.disk.findInode (·.id.toNat = loopedTree.currentDirId.toNat) = some firstSlot ∧
      (loopedTree.disk.inode firstSlot).parentId = loopedTree.currentDirId ∧
      (loopedTree.disk.inode firstSlot).cName = (CString.ofBuffer [122]).chars ∧
      loopedTree.disk.findInode (·.isEntryOf 2 0 (CString.ofBuffer [122]).chars) = none := by
  unfold Disk.IsDir
  decide +kernel

theorem plantedTree_reachable : (insideRuns directoryRuns).Reachable plantedTree := by
  refine directoryRuns_run (formatted_reachable (by decide)) ?_ plantedTree_eval.1
  simp [plantPointer]

theorem orphanedTree_reachable : (kernelRuns directoryRuns).Reachable orphanedTree :=
  (insideRuns_kernel plantedTree_reachable).stray_step (fun _ hop => by cases hop)
    plantedTree_eval.2.1.1 (RexFS.rmStrayed_strayed _ _ _)

/-- The current directory is gone, and `a` is the entry of no directory. -/
theorem stray_free_orphans :
    (kernelRuns directoryRuns).Reachable orphanedTree ∧ orphanedTree.fsMounted = true ∧
    ¬ (orphanedTree.currentDirId = 0 ∨ orphanedTree.disk.IsDir orphanedTree.currentDirId) ∧
    (orphanedTree.disk.inode 1).id ≠ 0 ∧
    ¬ ((orphanedTree.disk.inode 1).parentId = 0 ∨
      orphanedTree.disk.IsDir (orphanedTree.disk.inode 1).parentId) :=
  ⟨orphanedTree_reachable, plantedTree_eval.2.2.1⟩

/-! ## pwd and cd -/

/-- What `rexfs_pwd` prints for the components `names`. -/
def renderPath (names : List (List UInt8)) : List Print :=
  if names = [] then [.literal "/\n" colorWhite]
  else names.flatMap (fun name => [.char 47, .string name colorWhite]) ++ [.char 10]

/-- The commands `cd /`, then `cd` with each name. -/
def cdAll (st : RexFS) (names : List CString) : RexFS :=
  names.foldl rexfsCd (st.rexfsCd (.ofBuffer slash))

/-- The ids that `rexfs_pwd` collects print as the names of the walk. -/
theorem Walk.pwdIds {d : Disk} {cur : UInt16} {names : List (List UInt8)} (h : Walk d cur names)
    (hT : Tree d) (n : Nat) (hn : names.length ≤ n) :
    (pwdIds d n cur).reverse.flatMap (pwdComponent d) =
      names.flatMap fun name => [.char 47, .string name colorWhite] := by
  induction h generalizing n with
  | root => cases n <;> rfl
  | @child dir s name names hwalk _ _ _ hfind ih =>
    obtain ⟨hlive, hpar, _, hname⟩ := isEntryOf_iff.mp (Disk.findInode_some hfind).1
    rw [List.length_append, List.length_singleton] at hn
    obtain ⟨m, rfl⟩ : ∃ m, n = m + 1 := ⟨n - 1, by omega⟩
    have hids : RexFS.pwdIds d (m + 1) (d.idOf s) = d.idOf s :: RexFS.pwdIds d m dir := by
      rw [RexFS.pwdIds, if_neg (idOf_ne_zero hT.ids hlive), findInode_idOf hT.ids hlive, ← hpar]
    have hcomponent : pwdComponent d (d.idOf s) = [.char 47, .string name colorWhite] := by
      rw [pwdComponent, findInode_idOf hT.ids hlive, ← hname]
    rw [hids, List.reverse_cons, List.flatMap_append, ih m (by omega), List.flatMap_append,
      List.flatMap_singleton, List.flatMap_singleton, hcomponent]

/-- `rexfs_pwd` prints the names of the walk to the current directory. -/
theorem Walk.rexfsPwd {st : RexFS} {names : List (List UInt8)}
    (h : Walk st.disk st.currentDirId names) (hT : Tree st.disk) (hmounted : st.fsMounted = true) :
    st.rexfsPwd.out = st.out ++ renderPath names := by
  obtain ⟨l, hl, hlen⟩ := h.ascent hT
  have hmax := hT.ascent_length_le hl
  by_cases h0 : st.currentDirId = 0
  · have hnil : names = [] := by
      have := h0 ▸ h
      have hroot := this.length_unique .root hT
      exact List.length_eq_zero_iff.mp hroot
    simp only [RexFS.rexfsPwd, hmounted, h0, Bool.not_true, if_true, if_false, Bool.false_eq_true,
      renderPath, hnil]
    rfl
  · have hne : names ≠ [] := by
      rintro rfl
      rw [List.length_eq_zero_iff.mp hlen] at hl
      exact h0 hl.eq_root
    simp only [RexFS.rexfsPwd, hmounted, h0, Bool.not_true, if_false, Bool.false_eq_true, renderPath,
      hne]
    rw [h.pwdIds hT 64 (by omega), List.append_assoc]

theorem rexfsCd_slash {st : RexFS} (hmounted : st.fsMounted = true) :
    st.rexfsCd (.ofBuffer slash) = { st with currentDirId := 0 } := by
  simp only [rexfsCd, hmounted, CString.ofBuffer, slash]
  simp

/-- `cd` along a walk ends in the directory it leads to, without a message. -/
theorem Walk.cdAll {st : RexFS} (hmounted : st.fsMounted = true) {cur : UInt16}
    {names : List (List UInt8)} (h : Walk st.disk cur names) (paths : List CString)
    (hpaths : paths.map CString.chars = names) :
    Newrex.cdAll st paths = { st with currentDirId := cur } := by
  induction h generalizing paths with
  | root =>
    have hnil : paths = [] := by simpa using hpaths
    subst hnil
    exact rexfsCd_slash hmounted
  | @child dir s name names hwalk hne hslash hdots hfind ih =>
    obtain ⟨init, last, rfl, hinit, hlast⟩ := List.map_eq_append_iff.mp hpaths
    obtain ⟨path, rfl, hpath⟩ := List.map_eq_singleton_iff.mp hlast
    have hcd := ih init hinit
    unfold Newrex.cdAll at hcd ⊢
    rw [List.foldl_append, hcd, List.foldl_cons, List.foldl_nil]
    simp only [rexfsCd, hmounted, hpath, hne, hslash, hdots, hfind, Bool.not_true, if_false,
      Bool.false_eq_true]
    rfl

theorem renderPath_injective {names names' : List (List UInt8)}
    (h : renderPath names = renderPath names') : names = names' := by
  have hflat : ∀ as bs : List (List UInt8),
      as.flatMap (fun name => [Print.char 47, .string name colorWhite]) =
        bs.flatMap (fun name => [Print.char 47, .string name colorWhite]) → as = bs := by
    intro as
    induction as with
    | nil =>
      intro bs hbs
      cases bs with
      | nil => rfl
      | cons b bs => simp at hbs
    | cons a as ih =>
      intro bs hbs
      cases bs with
      | nil => simp at hbs
      | cons b bs =>
        simp only [List.flatMap_cons, List.cons_append, List.nil_append, List.cons.injEq,
          Print.string.injEq, true_and, and_true] at hbs
        rw [hbs.1, ih bs hbs.2]
  unfold renderPath at h
  split at h
  · next h0 =>
    split at h
    · next h0' => rw [h0, h0']
    · next h0' =>
      obtain ⟨a, as, rfl⟩ := List.exists_cons_of_ne_nil h0'
      simp at h
  · next h0 =>
    split at h
    · next h0' =>
      obtain ⟨a, as, rfl⟩ := List.exists_cons_of_ne_nil h0
      simp at h
    · exact hflat _ _ (List.append_cancel_right h)

/-- `pwd` and `cd` agree. In every state of a run that stays inside the bitmap, if `pwd` prints the
components `names`, then `cd /` followed by `cd` with each name ends in the current directory,
and none of these commands prints a message. -/
theorem run_pwd_cd {st : RexFS} (h : (insideRuns directoryRuns).Reachable st) {names : List CString}
    (hpwd : st.rexfsPwd.out = st.out ++ renderPath (names.map CString.chars)) :
    (cdAll st names).currentDirId = st.currentDirId ∧ (cdAll st names).out = st.out := by
  by_cases hmounted : st.fsMounted = true
  · have hnav := reachable_navigable (insideRuns_reachable h)
    obtain ⟨_, hwf, walked, hwalk⟩ := hnav.mounted hmounted
    rw [hwalk.rexfsPwd hwf.tree hmounted] at hpwd
    have heq := renderPath_injective (List.append_cancel_left hpwd)
    have hcd := hwalk.cdAll hmounted names heq.symm
    rw [hcd]
    exact ⟨rfl, rfl⟩
  · -- unmounted, `pwd` prints an error and no path
    have hout : st.rexfsPwd.out =
        st.out ++ [.literal "Error: Filesystem is not mounted.\n" colorLightRed] := by
      have hm : st.fsMounted = false := by simpa using hmounted
      simp only [RexFS.rexfsPwd, hm, Bool.not_false, if_true]
      rfl
    rw [hout] at hpwd
    have hrender := List.append_cancel_left hpwd
    unfold renderPath at hrender
    split at hrender
    · simp [colorLightRed, colorWhite] at hrender
    · next h0 =>
      obtain ⟨a, as, ha⟩ := List.exists_cons_of_ne_nil h0
      rw [ha] at hrender
      simp at hrender

/-- Mounted, `pwd` always prints a list of components. -/
theorem run_pwd_names {st : RexFS} (h : (insideRuns directoryRuns).Reachable st)
    (hmounted : st.fsMounted = true) :
    ∃ names : List CString, st.rexfsPwd.out = st.out ++ renderPath (names.map CString.chars) := by
  obtain ⟨_, hwf, walked, hwalk⟩ := (reachable_navigable (insideRuns_reachable h)).mounted hmounted
  obtain ⟨names, rfl⟩ : ∃ names : List CString, names.map CString.chars = walked := by
    clear hmounted h
    generalize st.currentDirId = cur at hwalk
    induction hwalk with
    | root => exact ⟨[], rfl⟩
    | @child dir s name names _ _ _ _ hfind ih =>
      obtain ⟨init, hinit⟩ := ih
      obtain ⟨_, _, _, hname⟩ := isEntryOf_iff.mp (Disk.findInode_some hfind).1
      refine ⟨init ++ [CString.ofBuffer (List.ofFn (st.disk.inode s).name)], ?_⟩
      rw [List.map_append, hinit, ← hname]
      rfl
  exact ⟨names, hwalk.rexfsPwd hwf.tree hmounted⟩

theorem run_pwd_cd_sample :
    (cdAll sampleTree [.ofBuffer [100]]).currentDirId = sampleTree.currentDirId ∧
      (cdAll sampleTree [.ofBuffer [100]]).out = sampleTree.out :=
  run_pwd_cd sampleTree_reachable (by decide +kernel)

/-- A directory that is its own parent fills `path_ids`. -/
theorem pwdIds_self {d : Disk} {id : UInt16} {s : Slot} (h0 : id ≠ 0)
    (hfind : d.findInode (·.id.toNat = id.toNat) = some s) (hpar : (d.inode s).parentId = id)
    (n : Nat) : pwdIds d n id = List.replicate n id := by
  induction n with
  | zero => rfl
  | succ n ih =>
    rw [RexFS.pwdIds, if_neg h0, hfind]
    dsimp only
    rw [hpar, ih, List.replicate_succ]

theorem rexfsPwd_self {st : RexFS} {s : Slot} (hm : st.fsMounted = true) (h0 : st.currentDirId ≠ 0)
    (hfind : st.disk.findInode (·.id.toNat = st.currentDirId.toNat) = some s)
    (hpar : (st.disk.inode s).parentId = st.currentDirId) :
    st.rexfsPwd.out = st.out ++ renderPath (List.replicate 64 (st.disk.inode s).cName) := by
  have hcomponent : pwdComponent st.disk st.currentDirId =
      [.char 47, .string (st.disk.inode s).cName colorWhite] := by rw [pwdComponent, hfind]
  have hne : List.replicate 64 (st.disk.inode s).cName ≠ [] := by simp
  simp only [RexFS.rexfsPwd, hm, h0, Bool.not_true, if_false, Bool.false_eq_true, renderPath, hne,
    pwdIds_self h0 hfind hpar, List.reverse_replicate, List.flatMap_replicate, hcomponent,
    List.append_assoc]

/-- `cd` to a name that the root does not have, any number of times. -/
theorem cd_not_found {st : RexFS} {path : CString} (hm : st.fsMounted = true)
    (hroot : st.currentDirId = 0) (hpath : path.chars ≠ [] ∧ path.chars ≠ slash ∧
      path.chars ≠ dotDot)
    (hnone : st.disk.findInode (·.isEntryOf 2 0 path.chars) = none) (n : Nat) :
    ((List.replicate n path).foldl rexfsCd st).currentDirId = 0 := by
  induction n generalizing st with
  | zero => exact hroot
  | succ n ih =>
    have hcd : st.rexfsCd path =
        st.printStringColor "Error: Directory not found.\n" colorLightRed := by
      simp only [rexfsCd, hm, hroot, hpath, hnone, Bool.not_true, if_false, Bool.false_eq_true]
    rw [List.replicate_succ, List.foldl_cons, hcd]
    exact ih hm hroot hnone

theorem kernelRuns_mkdir {st : RexFS} (h : (kernelRuns directoryRuns).Reachable st)
    (name : CString) : (kernelRuns directoryRuns).Reachable (st.rexfsMkdir name) := by
  have hop : (Op.mkdir name).StaysInside st := Op.staysInside_of_unresolved rfl
  exact Reachable.defined_step h (fun _ heq => by cases heq) hop

/-- In a directory that is its own parent and that the root does not have, `pwd` prints its name 64
times, and no `cd` finds it. -/
theorem self_parent_loses_path {st : RexFS} {s : Slot} {name : CString}
    (hm : st.fsMounted = true) (h0 : st.currentDirId ≠ 0)
    (hfind : st.disk.findInode (·.id.toNat = st.currentDirId.toNat) = some s)
    (hpar : (st.disk.inode s).parentId = st.currentDirId)
    (hname : (st.disk.inode s).cName = name.chars)
    (hpath : name.chars ≠ [] ∧ name.chars ≠ slash ∧ name.chars ≠ dotDot)
    (hnone : st.disk.findInode (·.isEntryOf 2 0 name.chars) = none) :
    st.rexfsPwd.out = st.out ++ renderPath ((List.replicate 64 name).map CString.chars) ∧
      (cdAll st (List.replicate 64 name)).currentDirId ≠ st.currentDirId := by
  constructor
  · rw [List.map_replicate, rexfsPwd_self hm h0 hfind hpar, hname]
  · have hlost : ((List.replicate 64 name).foldl rexfsCd
        { st with currentDirId := 0 }).currentDirId = 0 :=
      @cd_not_found { st with currentDirId := 0 } name hm rfl hpath hnone 64
    rw [cdAll, rexfsCd_slash hm, hlost]
    exact h0.symm

/-- The directory `z` is lost. -/
theorem stray_free_loses_path : (kernelRuns directoryRuns).Reachable loopedTree ∧
    loopedTree.rexfsPwd.out = loopedTree.out ++
      renderPath ((List.replicate 64 (CString.ofBuffer [122])).map CString.chars) ∧
    (cdAll loopedTree (List.replicate 64 (.ofBuffer [122]))).currentDirId ≠
      loopedTree.currentDirId := by
  obtain ⟨hm, h0, hfind, hpar, hname, hnone⟩ := plantedTree_eval.2.2.2
  refine ⟨kernelRuns_mkdir orphanedTree_reachable _, ?_⟩
  exact self_parent_loses_path hm h0 hfind hpar hname (by decide) hnone

end Newrex
