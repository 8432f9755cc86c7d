import Mathlib.Data.List.GetD
import Newrex.RexFS.Crash
import Newrex.RexFS.Tree

/-!
# RexFS: names of files and directories

`mkdir` and `touch` compare the whole argument with the stored names and store at most 27
characters of it; `rm` and `cat` compare the whole argument; `write` takes its first word.
For names of at most 27 characters all of them agree.

* `Created`: what the other commands make of a name right after it was created.
* `UniqueNames`: no directory has two entries of one name.
* `created_name_resolves` is the result, with runs that stay inside the bitmap;
  `created_name_not_found` shows names that one command creates and another does not find.
-/

namespace Newrex

open RexFS TransitionSystem

/-! ## The stored name -/

/-- `mkdir` and `touch` store the first 27 characters. -/
theorem newInode_cName (s : Slot) (type dir : UInt16) {name : List UInt8}
    (hnul : ∀ c, c ∈ name → c ≠ 0) : (newInode s type dir name).cName = name.take 27 := by
  have hlen : (name.take 27).length ≤ 27 := by
    rw [List.length_take]
    omega
  have hnul' : ∀ c, c ∈ name.take 27 → c ≠ 0 := fun c hc => hnul c (List.mem_of_mem_take hc)
  have hfield : List.ofFn (newInode s type dir name).name =
      name.take 27 ++ List.replicate (28 - (name.take 27).length) 0 := by
    refine List.ext_getElem (by simp) fun i h1 h2 => ?_
    rw [List.getElem_ofFn]
    show (name.take 27).getD i 0 = _
    rw [List.getElem_append]
    split
    · next hi => rw [List.getD_eq_getElem _ _ hi]
    · next hi =>
      rw [List.getElem_replicate, List.getD_eq_default _ _ (by omega)]
  obtain ⟨k, hk⟩ : ∃ k, 28 - (name.take 27).length = k + 1 := ⟨27 - (name.take 27).length, by omega⟩
  rw [NrInode.cName, hfield, hk, List.replicate_succ, takeWhile_terminated hnul']

theorem newInode_cName_short (s : Slot) (type dir : UInt16) (name : CString)
    (hlen : name.chars.length ≤ 27) : (newInode s type dir name.chars).cName = name.chars := by
  rw [newInode_cName s type dir name.nulFree, List.take_of_length_le hlen]

theorem newInode_live (s : Slot) (type dir : UInt16) (name : List UInt8) :
    (newInode s type dir name).id ≠ 0 := by
  intro h0
  have hid : UInt32.ofNat (s.val + 1) = 0 := h0
  have := UInt32.toNat_slot s
  rw [hid] at this
  exact absurd this (by simp)

/-! ## Unique names -/

/-- No directory has two live entries of one name. -/
def UniqueNames (d : Disk) : Prop :=
  ∀ s t, (d.inode s).id ≠ 0 → (d.inode t).id ≠ 0 → (d.inode s).parentId = (d.inode t).parentId →
    (d.inode s).cName = (d.inode t).cName → s = t

/-- Every live inode of `d'` is the same entry in `d`. -/
def KeepsEntries (d d' : Disk) : Prop :=
  ∀ t, (d'.inode t).id ≠ 0 → (d'.inode t).SameEntry (d.inode t)

theorem NrInode.SameEntry.cName {a b : NrInode} (h : a.SameEntry b) : a.cName = b.cName := by
  rw [NrInode.cName, NrInode.cName, h.2.2.2]

theorem UniqueNames.keep {d d' : Disk} (h : UniqueNames d) (hk : KeepsEntries d d') :
    UniqueNames d' := by
  intro s t hs ht hpar hname
  have hsame := hk s hs
  have hsame' := hk t ht
  refine h s t ?_ ?_ ?_ ?_
  · rw [← hsame.1]; exact hs
  · rw [← hsame'.1]; exact ht
  · rw [← hsame.2.1, ← hsame'.2.1]; exact hpar
  · rw [← hsame.cName, ← hsame'.cName]; exact hname

/-- A new entry whose name no entry of its directory has. -/
theorem UniqueNames.create {d : Disk} (h : UniqueNames d) {s : Slot} {type dir : UInt16}
    {name : CString} (hlen : name.chars.length ≤ 27)
    (hnone : d.findInode (·.isEntry dir name.chars) = none) :
    UniqueNames (d.setInode s (newInode s type dir name.chars)) := by
  have hfresh : ∀ t, (d.inode t).id ≠ 0 → (d.inode t).parentId = dir →
      (d.inode t).cName ≠ name.chars := by
    intro t ht hpar hname
    have := Disk.findInode_none hnone t
    rw [isEntry_iff.mpr ⟨ht, hpar, hname⟩] at this
    cases this
  have hself : ∀ t, t ≠ s → ((d.setInode s (newInode s type dir name.chars)).inode t).id ≠ 0 →
      ((d.setInode s (newInode s type dir name.chars)).inode t).parentId = dir →
      ((d.setInode s (newInode s type dir name.chars)).inode t).cName ≠ name.chars := by
    intro t hts
    rw [Disk.setInode_inode_of_ne _ _ hts]
    exact hfresh t
  intro a b ha hb hpar hname
  by_cases has : a = s
  · by_cases hbs : b = s
    · rw [has, hbs]
    · subst has
      rw [Disk.setInode_inode_self] at hpar hname
      rw [newInode_cName_short _ _ _ _ hlen] at hname
      exact absurd hname.symm (hself b hbs hb hpar.symm)
  · by_cases hbs : b = s
    · subst hbs
      rw [Disk.setInode_inode_self] at hpar hname
      rw [newInode_cName_short _ _ _ _ hlen] at hname
      exact absurd hname (hself a has ha hpar)
    · rw [Disk.setInode_inode_of_ne _ _ has] at ha hpar hname
      rw [Disk.setInode_inode_of_ne _ _ hbs] at hb hpar hname
      exact h a b ha hb hpar hname

/-! ## What the commands do to the entries -/

theorem KeepsEntries.of_eq {d d' : Disk} (h : ∀ t, d'.inode t = d.inode t) : KeepsEntries d d' :=
  fun t _ => .of_eq (h t)

theorem KeepsEntries.of_update_one (d : Disk) (b : Sector) :
    KeepsEntries d (Function.update d 1 b) :=
  fun t _ => sameEntry_update_one d b t

/-- A command that resolves an inode removes it or keeps every entry. -/
theorem Effect.keepsEntries {st st' : RexFS} {op : Op} {s : Slot} (he : Effect st op st')
    (hres : op.resolved st = some s) : KeepsEntries st.disk st'.disk := by
  cases he with
  | same hd _ _ => exact .of_eq fun t => by rw [hd]
  | format _ hop => rw [hop] at hres; cases hres
  | mounted _ hop => rw [hop] at hres; cases hres
  | unmounted _ hop => rw [hop] at hres; cases hres
  | chdir _ _ _ hd _ _ => exact .of_eq fun t => by rw [hd]
  | create _ _ _ _ hnone => rw [hnone] at hres; cases hres
  | rmdir s _ _ _ _ _ _ hd _ _ =>
    intro t ht
    have hts : t ≠ s := by
      rintro rfl
      rw [hd, Disk.setInode_inode_self] at ht
      exact ht rfl
    rw [hd, Disk.setInode_inode_of_ne _ _ hts]
    exact .of_eq rfl
  | remove s _ _ _ _ _ hd _ _ =>
    intro t ht
    have hts : t ≠ s := by
      rintro rfl
      rw [hd, Disk.setInode_inode_self] at ht
      exact ht rfl
    rw [hd]
    exact remove_file_entries t hts _
  | freed s _ _ _ _ _ hd _ _ =>
    intro t _
    rw [hd, freeInodeBlocks_inode]
    exact .of_eq rfl
  | rewrite s _ r bs ind leak _ _ _ _ hW hd _ _ =>
    intro t _
    rw [hd]
    exact hW.sameEntry _ t

/-- `mkdir` and `touch`: either only a message, or a new inode for a name that the
directory does not have, in a free slot. -/
theorem createInode_cases (st : RexFS) (type : UInt16) (usage created : String) (name : CString) :
    (createInode type usage created st name).disk = st.disk ∨
      ∃ s, st.disk.findInode (·.isEntry st.currentDirId name.chars) = none ∧
        (createInode type usage created st name).disk =
          st.disk.setInode s (newInode s type st.currentDirId name.chars) := by
  unfold createInode
  split
  · exact Or.inl rfl
  · split
    · exact Or.inl rfl
    · split
      · exact Or.inl rfl
      · next hnone =>
        split
        · next s _ => exact Or.inr ⟨s, hnone, storeInode_disk st s _⟩
        · exact Or.inl rfl

theorem rexfsCd_disk (st : RexFS) (path : CString) : (st.rexfsCd path).disk = st.disk := by
  unfold rexfsCd
  split
  · rfl
  · split
    · rfl
    · split
      · rfl
      · split
        · split
          · rfl
          · split <;> rfl
        · split <;> rfl

theorem rexfsMount_keepsEntries (st : RexFS) : KeepsEntries st.disk st.rexfsMount.disk := by
  unfold rexfsMount
  dsimp only
  split
  · exact .of_eq fun _ => rfl
  · split
    · exact .of_eq fun _ => rfl
    · split <;> exact .of_update_one st.disk _

theorem rexfsUnmount_keepsEntries (st : RexFS) : KeepsEntries st.disk st.rexfsUnmount.disk := by
  unfold rexfsUnmount
  split
  · exact .of_eq fun _ => rfl
  · exact .of_update_one st.disk _

theorem rexfsMkfs_keepsEntries (st : RexFS) (capacity : UInt32) :
    KeepsEntries st.disk (st.rexfsMkfs capacity).disk := by
  by_cases h0 : capacity = 0
  · rw [rexfsMkfs, if_pos h0]
    exact .of_eq fun _ => rfl
  · intro t ht
    exact absurd (format_table_free (mkfs_formatted st h0).1.zeroed t) ht

/-- The name that `mkdir` or `touch` is given. -/
def Op.createdName : Op → Option CString
  | .mkdir name | .touch name => some name
  | _ => none

/-- Every command with a short name keeps names unique. -/
theorem step_uniqueNames {st : RexFS} (hoff : st.fsMounted = true → st.activeSb.dataOffset = 11)
    (h : UniqueNames st.disk) {op : Op}
    (hshort : ∀ name, op.createdName = some name → name.chars.length ≤ 27) :
    UniqueNames (op.step st).disk := by
  have hcreate : ∀ (type : UInt16) (usage created : String) (name : CString),
      name.chars.length ≤ 27 → UniqueNames (createInode type usage created st name).disk := by
    intro type usage created name hlen
    rcases createInode_cases st type usage created name with hd | ⟨s, hnone, hd⟩
    · rw [hd]
      exact h
    · rw [hd]
      exact h.create hlen hnone
  -- `rm`, `write` and `writehex` do nothing to the disk when they find no file
  have hresolve : ∀ op : Op, (op.resolved st = none →
      ∃ text, op.step st = st.printStringColor text colorLightRed) →
      UniqueNames (op.step st).disk := by
    intro op hun
    rcases hres : op.resolved st with _ | s
    · obtain ⟨text, heq⟩ := hun hres
      rw [heq]
      exact h
    · exact h.keep ((step_effect st hoff op).keepsEntries hres)
  cases op with
  | mkdir name => exact hcreate _ _ _ name (hshort name rfl)
  | touch name => exact hcreate _ _ _ name (hshort name rfl)
  | rm name => exact hresolve (.rm name) rexfsRm_unresolved
  | write cmdArgs => exact hresolve (.write cmdArgs) rexfsWrite_unresolved
  | writehex cmdArgs binBuf =>
    exact hresolve (.writehex cmdArgs binBuf) rexfsWritehex_unresolved
  | cd path =>
    show UniqueNames (st.rexfsCd path).disk
    rw [rexfsCd_disk]
    exact h
  | mkfs capacity => exact h.keep (rexfsMkfs_keepsEntries st capacity)
  | mount => exact h.keep (rexfsMount_keepsEntries st)
  | unmount => exact h.keep (rexfsUnmount_keepsEntries st)

/-! ## Runs -/

/-- All runs in which names have at most 27 characters, with `mkfs` at any time. They
start unmounted, with a disk that has no file system or was just formatted. -/
def namedRuns : TransitionSystem RexFS Op where
  init := fun st => st.fsMounted = false ∧
    (st.disk.Unsigned ∨ ∃ st0 capacity, capacity ≠ 0 ∧ st = rexfsMkfs st0 capacity)
  allowed := fun _ op => ∀ name, op.createdName = some name → name.chars.length ≤ 27
  step := fun st op => op.step st

/-- The invariant: no file system yet, or one that RexFS formatted and whose names are
unique. -/
inductive NamedInv (st : RexFS) : Prop
  | blank : st.disk.Unsigned → st.fsMounted = false → NamedInv st
  | formatted (last : SuperStep) : CrashInv ⟨st, last⟩ → UniqueNames st.disk → NamedInv st

theorem mkfs_namedInv (st : RexFS) {capacity : UInt32} (h0 : capacity ≠ 0)
    (hm : st.fsMounted = false) : NamedInv (st.rexfsMkfs capacity) := by
  obtain ⟨hformat, hmount, _⟩ := mkfs_formatted st h0
  refine .formatted .mkfs ⟨?_, fun hm' => ?_⟩ fun s _ hs => ?_
  · show Stamped .mkfs ((st.rexfsMkfs capacity).disk 1)
    rw [hformat.superblock]
    exact stamped_mkfs capacity
  · change (st.rexfsMkfs capacity).fsMounted = true at hm'
    rw [hmount, hm] at hm'
    cases hm'
  · exact absurd (format_table_free hformat.zeroed s) hs

/-- A blank disk stays blank until it is formatted. -/
theorem step_blank {st : RexFS} {op : Op} (hun : st.disk.Unsigned) (hm : st.fsMounted = false) :
    NamedInv (op.step st) := by
  have hnot : ¬ st.fsMounted = true := by rw [hm]; exact Bool.false_ne_true
  have hoff : st.fsMounted = true → st.activeSb.dataOffset = 11 := fun h => absurd h hnot
  cases step_effect st hoff op with
  | same hd hmount _ => exact .blank (by rw [hd]; exact hun) (by rw [hmount]; exact hm)
  | format capacity hop h0 _ _ _ =>
    rw [hop]
    exact mkfs_namedInv st h0 hm
  | mounted sb _ hsb hmagic hversion _ _ _ =>
    rw [Disk.Unsigned, ← hsb] at hun
    exact absurd hun (by simp [hmagic, hversion])
  | unmounted _ _ hmount => exact absurd hmount hnot
  | chdir _ hmount => exact absurd hmount hnot
  | create _ _ _ hmount => exact absurd hmount hnot
  | rmdir _ _ hmount => exact absurd hmount hnot
  | remove _ _ hmount => exact absurd hmount hnot
  | freed _ _ hmount => exact absurd hmount hnot
  | rewrite _ _ _ _ _ _ hmount => exact absurd hmount hnot

theorem reachable_namedInv {st : RexFS} (h : namedRuns.Reachable st) : NamedInv st := by
  refine h.invariant ?_ ?_
  · rintro st ⟨hm, hun | ⟨st0, capacity, h0, rfl⟩⟩
    · exact .blank hun hm
    · have hm0 : st0.fsMounted = false := by
        rw [(mkfs_formatted st0 h0).2.1] at hm
        exact hm
      exact mkfs_namedInv st0 h0 hm0
  · intro st op _ hinv hshort
    cases hinv with
    | blank hun hm => exact step_blank hun hm
    | formatted last hcrash hnames =>
      exact .formatted _ (step_crashInv hcrash (.complete (.op op)))
        (step_uniqueNames hcrash.offset hnames hshort)

/-! ## Created names -/

/-- The name denotes the inode in slot `s`, and no other: it cannot be created again, and
`rm` finds it. -/
structure Created (st : RexFS) (name : CString) (s : Slot) : Prop where
  only : ∀ t, (st.disk.inode t).isEntry st.currentDirId name.chars = true ↔ t = s
  touch : st.rexfsTouch name = st.printStringColor
    "Error: A file or directory with that name already exists.\n" colorLightRed
  mkdir : st.rexfsMkdir name = st.printStringColor
    "Error: A file or directory with that name already exists.\n" colorLightRed
  rm : Op.resolved st (.rm name) = some s

/-- The name denotes the empty file in slot `s`: `cat` finds it and prints nothing, and
`write` finds it when the name is one word. -/
structure CreatedFile (st : RexFS) (name : CString) (s : Slot) : Prop
    extends Created st name s where
  catFinds : st.disk.findInode (·.isEntryOf 1 st.currentDirId name.chars) = some s
  catPrints : st.rexfsCat name = st
  write : 32 ∉ name.chars → ∀ text, Op.resolved st (.write (writeArgs name text)) = some s

/-- A search that only slot `s` can pass. -/
theorem Disk.findInode_eq_some {d : Disk} {p : NrInode → Bool} {s : Slot}
    (h : ∀ t, p (d.inode t) = true ↔ t = s) : d.findInode p = some s := by
  cases hfind : d.findInode p with
  | none =>
    have := Disk.findInode_none hfind s
    rw [(h s).mpr rfl] at this
    cases this
  | some t => rw [(h t).mp (Disk.findInode_some hfind).1]

/-- What it takes for `mkdir` or `touch` to report success. -/
theorem createInode_success {st : RexFS} {type : UInt16} {usage created : String} {name : CString}
    (h : (createInode type usage created st name).out =
      st.out ++ [.literal created colorLightGreen]) :
    st.fsMounted = true ∧ name.chars ≠ [] ∧
      st.disk.findInode (·.isEntry st.currentDirId name.chars) = none ∧
      ∃ s, createInode type usage created st name =
        (st.storeInode s (newInode s type st.currentDirId name.chars)).printStringColor created
          colorLightGreen := by
  have hred : ∀ text : String, (st.printStringColor text colorLightRed).out ≠
      st.out ++ [.literal created colorLightGreen] := by
    intro text hout
    have := List.append_cancel_left hout
    simp [colorLightRed, colorLightGreen] at this
  unfold createInode at h ⊢
  split at h
  · exact absurd h (hred _)
  · next hm =>
    split at h
    · exact absurd h (hred _)
    · next hname =>
      split at h
      · exact absurd h (hred _)
      · next hnone =>
        split at h
        · next s hs =>
          refine ⟨by simpa using hm, hname, hnone, s, ?_⟩
          rw [if_neg hm, if_neg hname]
        · exact absurd h (hred _)

/-- A second `mkdir` or `touch` with a name that is there. -/
theorem createInode_exists {st : RexFS} {type : UInt16} {usage created : String} {name : CString}
    {s : Slot} (hm : st.fsMounted = true) (hname : name.chars ≠ [])
    (hfind : st.disk.findInode (·.isEntry st.currentDirId name.chars) = some s) :
    createInode type usage created st name = st.printStringColor
      "Error: A file or directory with that name already exists.\n" colorLightRed := by
  simp only [createInode, hm, hname, hfind, Bool.not_true, if_false, Bool.false_eq_true]

/-- After a successful `mkdir` or `touch`. -/
theorem createInode_created {st : RexFS} {type : UInt16} {usage created : String} {name : CString}
    (hlen : name.chars.length ≤ 27)
    (h : (createInode type usage created st name).out =
      st.out ++ [.literal created colorLightGreen]) :
    ∃ s, Created (createInode type usage created st name) name s ∧
      (createInode type usage created st name).fsMounted = true ∧
      (createInode type usage created st name).disk.inode s =
        newInode s type (createInode type usage created st name).currentDirId name.chars := by
  obtain ⟨hm, hname, hnone, s, heq⟩ := createInode_success h
  have hdisk := congrArg RexFS.disk heq
  have hmount := congrArg RexFS.toMountState heq
  rw [printStringColor_disk, storeInode_disk] at hdisk
  rw [printStringColor_toMountState, storeInode_toMountState] at hmount
  generalize createInode type usage created st name = st' at hdisk hmount ⊢
  have hm' : st'.fsMounted = true := by rw [hmount, hm]
  have hdir : st'.currentDirId = st.currentDirId := by rw [hmount]
  have hself : st'.disk.inode s = newInode s type st'.currentDirId name.chars := by
    rw [hdisk, Disk.setInode_inode_self, hdir]
  have honly : ∀ t, (st'.disk.inode t).isEntry st'.currentDirId name.chars = true ↔ t = s := by
    intro t
    constructor
    · intro hentry
      by_contra hts
      rw [hdisk, hdir, Disk.setInode_inode_of_ne _ _ hts, Disk.findInode_none hnone t] at hentry
      cases hentry
    · rintro rfl
      rw [hself]
      exact isEntry_iff.mpr ⟨newInode_live _ _ _ _, rfl, newInode_cName_short _ _ _ _ hlen⟩
  have hfind := Disk.findInode_eq_some honly
  refine ⟨s, ⟨honly, ?_, ?_, ?_⟩, hm', hself⟩
  · exact createInode_exists hm' hname hfind
  · exact createInode_exists hm' hname hfind
  · show (if st'.fsMounted = true ∧ name.chars ≠ [] then _ else none) = _
    rw [if_pos ⟨hm', hname⟩]
    exact hfind

/-- After a successful `touch`. -/
theorem rexfsTouch_created {st : RexFS} {name : CString} (hlen : name.chars.length ≤ 27)
    (h : (st.rexfsTouch name).out =
      st.out ++ [.literal "File created successfully.\n" colorLightGreen]) :
    ∃ s, CreatedFile (st.rexfsTouch name) name s := by
  obtain ⟨s, hcreated, hm, hself⟩ := createInode_created hlen h
  have hname := (createInode_success h).2.1
  change Created (st.rexfsTouch name) name s at hcreated
  change (st.rexfsTouch name).fsMounted = true at hm
  change (st.rexfsTouch name).disk.inode s =
    newInode s 1 (st.rexfsTouch name).currentDirId name.chars at hself
  generalize st.rexfsTouch name = st' at hm hself hcreated ⊢
  have hfile : st'.disk.findInode (·.isEntryOf 1 st'.currentDirId name.chars) = some s := by
    refine Disk.findInode_eq_some fun t => ?_
    constructor
    · intro hentry
      obtain ⟨hlive, hpar, _, hn⟩ := isEntryOf_iff.mp hentry
      exact (hcreated.only t).mp (isEntry_iff.mpr ⟨hlive, hpar, hn⟩)
    · rintro rfl
      obtain ⟨hlive, hpar, hn⟩ := isEntry_iff.mp ((hcreated.only t).mpr rfl)
      exact isEntryOf_iff.mpr ⟨hlive, hpar, by rw [hself]; rfl, hn⟩
  have hsize : (st'.disk.inode s).size = 0 := by rw [hself]; rfl
  refine ⟨s, hcreated, hfile, ?_, ?_⟩
  · simp only [rexfsCat, hm, hname, hfile, hsize, Bool.not_true, if_false, Bool.false_eq_true,
      if_true]
  · intro hspace text
    have hargs : (writeArgs name text).chars ≠ [] := by simp [writeArgs_chars]
    have hpayload : (payloadOf (writeArgs name text).chars).isSome := by
      rw [payloadOf, filenameOf_writeArgs hspace hlen, writeArgs_chars, List.drop_left]
      rfl
    show (if st'.fsMounted = true ∧ _ ∧ _ then _ else none) = _
    rw [if_pos ⟨hm, hargs, hpayload⟩, filenameOf_writeArgs hspace hlen]
    exact hfile

/-- Created names are usable and unique. When `touch` or `mkdir` reports success for a name
of at most 27 characters, exactly one live inode of the current directory has that name,
creating it again is rejected and `rm` finds it; for `touch` so does `cat`, and `write`
with any text when the name is one word. In runs with such names that stay inside the bitmap, no
two live inodes of a directory ever have equal names. -/
theorem created_name_resolves (st : RexFS) :
    (∀ name : CString, name.chars.length ≤ 27 →
      (st.rexfsTouch name).out =
        st.out ++ [.literal "File created successfully.\n" colorLightGreen] →
      ∃ s, CreatedFile (st.rexfsTouch name) name s) ∧
    (∀ name : CString, name.chars.length ≤ 27 →
      (st.rexfsMkdir name).out =
        st.out ++ [.literal "Directory created successfully.\n" colorLightGreen] →
      ∃ s, Created (st.rexfsMkdir name) name s) ∧
    ((insideRuns namedRuns).Reachable st → st.fsMounted = true → UniqueNames st.disk) := by
  refine ⟨fun name hlen h => rexfsTouch_created hlen h, fun name hlen h => ?_, fun hreach hm => ?_⟩
  · obtain ⟨s, hcreated, _⟩ := createInode_created hlen h
    exact ⟨s, hcreated⟩
  · cases reachable_namedInv (insideRuns_reachable hreach) with
    | blank _ hun =>
      rw [hun] at hm
      cases hm
    | formatted _ _ hnames => exact hnames

/-- A new file system on a disk of 16 sectors, mounted. -/
def sampleMounted : RexFS := ((boot fun _ => Sector.zero).rexfsMkfs 16).rexfsMount

theorem created_name_resolves_sample :
    (∃ s, CreatedFile (sampleMounted.rexfsTouch (.ofBuffer [102])) (.ofBuffer [102]) s) ∧
      (∃ s, Created (sampleMounted.rexfsMkdir (.ofBuffer [100])) (.ofBuffer [100]) s) ∧
      UniqueNames sampleMounted.disk := by
  obtain ⟨htouch, hmkdir, hnames⟩ := created_name_resolves sampleMounted
  have hinit : (insideRuns namedRuns).Reachable ((boot fun _ => Sector.zero).rexfsMkfs 16) :=
    .init ⟨rfl, Or.inr ⟨_, 16, by decide, rfl⟩⟩
  have hreach : (insideRuns namedRuns).Reachable sampleMounted := by
    refine @insideRuns_isRun _ _ hinit [.mount] (isRun_cons.mpr ⟨⟨?_, ?_⟩, isRun_nil⟩)
    · exact fun _ hname => by cases hname
    · exact Op.staysInside_of_unresolved rfl
  exact ⟨htouch _ (by decide) (by decide +kernel), hmkdir _ (by decide) (by decide +kernel),
    hnames hreach (by decide +kernel)⟩

/-- The first 27 letters of a name. -/
def longStem : List UInt8 := List.replicate 27 97

/-- Names that one command creates and another does not find: `cat` of a directory, `write`
to a file whose name has a space, and a name of 28 characters, which `touch` creates twice
under one stored name. -/
theorem created_name_not_found :
    (sampleMounted.rexfsMkdir (.ofBuffer [100])).out = sampleMounted.out ++
        [.literal "Directory created successfully.\n" colorLightGreen] ∧
      ((sampleMounted.rexfsMkdir (.ofBuffer [100])).rexfsCat (.ofBuffer [100])).out =
        (sampleMounted.rexfsMkdir (.ofBuffer [100])).out ++
          [.literal "Error: File not found.\n" colorLightRed] ∧
      (sampleMounted.rexfsTouch (.ofBuffer [97, 32, 98])).out = sampleMounted.out ++
        [.literal "File created successfully.\n" colorLightGreen] ∧
      Op.resolved (sampleMounted.rexfsTouch (.ofBuffer [97, 32, 98]))
        (.write (writeArgs (.ofBuffer [97, 32, 98]) (.ofBuffer [120]))) = none ∧
      (∀ i : Fin 2, ((((sampleMounted.rexfsTouch (.ofBuffer (longStem ++ [98]))).rexfsTouch
        (.ofBuffer (longStem ++ [98]))).disk.inode ⟨i, by omega⟩).isEntry 0 longStem) = true) := by
  refine ⟨by decide +kernel, by decide +kernel, by decide +kernel, by decide +kernel,
    by decide +kernel⟩

end Newrex
