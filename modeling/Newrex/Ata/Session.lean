import Newrex.Ata.Driver

/-!
# Sessions with the drive

The kernel reads and writes one sector after another, with other work in between. `write_sector`
returns before the drive has stored the sector, and neither function looks at the status before
it addresses the drive: a call that comes too early leaves the old address, or a part of it, in
the registers.

* `LateDisk` is the disk that the kernel gets in this way;
* `session_ends_iff`: the driver over the drive is this disk, for every session and every drive;
* `session_covered`: with pauses as long as the drive works it is the plain disk.
-/

namespace Newrex

open PortIO Driver WriteLog

/-- A call of `read_sector` or of `write_sector`. -/
inductive DiskCall
  | read (lba : UInt32)
  | write (lba : UInt32) (buffer : Sector)

namespace DiskCall

def lba : DiskCall → UInt32
  | read lba | write lba _ => lba

/-- The call, and the sectors that it has read. -/
def perform (vars : AtaVars) : DiskCall → Driver (AtaVars × List Sector)
  | read lba => do
    let r ← ataReadSector vars lba
    pure (r.1, [r.2])
  | write lba buffer => do
    let vars ← ataWriteSector vars lba buffer
    pure (vars, [])

def count (vars : AtaVars) : DiskCall → AtaVars
  | read _ => vars.readExecuted
  | write _ _ => vars.writeExecuted

end DiskCall

/-- Calls, each with the number of pauses after it. -/
abbrev Session := List (DiskCall × Nat)

def Session.perform (vars : AtaVars) : Session → Driver (AtaVars × List Sector)
  | [] => pure (vars, [])
  | (call, n) :: calls => do
    let r ← call.perform vars
    pauses n
    let r' ← perform r.1 calls
    pure (r'.1, r.2 ++ r'.2)

/-- The writes of a session. The drive has 28 bits for an address. -/
def Session.writes : Session → List (Nat × Sector)
  | [] => []
  | (.read _, _) :: calls => writes calls
  | (.write lba buffer, _) :: calls => (lba.toNat % 2 ^ 28, buffer) :: writes calls

theorem Session.mem_writes {calls : Session} {lba : UInt32} {buffer : Sector} {n : Nat}
    (h : (DiskCall.write lba buffer, n) ∈ calls) :
    (lba.toNat % 2 ^ 28, buffer) ∈ calls.writes := by
  induction calls with
  | nil => cases h
  | cons call calls ih =>
    rcases List.mem_cons.mp h with rfl | htail
    · exact List.mem_cons_self
    · obtain ⟨call, m⟩ := call
      cases call with
      | read lba' => exact ih htail
      | write lba' buffer' => exact List.mem_cons_of_mem _ (ih htail)

/-- What the reads of a session find on a plain disk. -/
def Session.reads (disk : Disk) : Session → List Sector
  | [] => []
  | (.read lba, _) :: calls => disk (lba.toNat % 2 ^ 28) :: reads disk calls
  | (.write lba buffer, _) :: calls =>
    reads (Function.update disk (lba.toNat % 2 ^ 28) buffer) calls

/-- The calls stay on the disk, and the pause after a write is as long as the drive works. -/
structure Session.Covered (calls : Session) (capacity : Nat) (delay : Nat → Nat) : Prop where
  onDisk : ∀ c, c ∈ calls → c.1.lba.toNat % 2 ^ 28 < capacity
  pauses : ∀ lba buffer n, (DiskCall.write lba buffer, n) ∈ calls → ∀ k, delay k ≤ n

/-- The counters and the trace after the calls. -/
def Session.count (vars : AtaVars) (calls : Session) : AtaVars :=
  calls.foldl (fun vars c => c.1.count vars) vars

/-! ## The disk that the calls see -/

/-- The disk, the address of the last call, and for how many accesses the drive is still busy. -/
structure LateDisk where
  disk : Disk
  address : Nat
  lag : Nat
  periods : Nat

namespace LateDisk

/-- A call. Without a result the driver waits for ever. -/
def perform (capacity : Nat) (delay : Nat → Nat) (s : LateDisk) (call : DiskCall) :
    Option (LateDisk × List Sector) :=
  let address := mixedAddress s.lag s.address call.lba.toNat
  if s.lag ≤ 5 ∧ address < capacity then
    match call with
    | .read _ => some (⟨s.disk, address, 0, s.periods + 1⟩, [s.disk address])
    | .write _ buffer =>
      some (⟨Function.update s.disk address buffer, address, delay (s.periods + 1), s.periods + 2⟩,
        [])
  else none

def session (capacity : Nat) (delay : Nat → Nat) :
    Session → LateDisk → Option (LateDisk × List Sector)
  | [], s => some (s, [])
  | (call, n) :: calls, s =>
    (s.perform capacity delay call).bind fun r =>
      (session capacity delay calls { r.1 with lag := r.1.lag - n }).map fun r' =>
        (r'.1, r.2 ++ r'.2)

section Calls

variable {capacity : Nat} {delay : Nat → Nat} {disk : Disk} {address lag periods target n : Nat}
  {lba : UInt32} {calls : Session}

theorem session_read (hlate : lag ≤ 5) (htarget : mixedAddress lag address lba.toNat = target)
    (hon : target < capacity) :
    session capacity delay ((.read lba, n) :: calls) ⟨disk, address, lag, periods⟩ =
      (session capacity delay calls ⟨disk, target, 0, periods + 1⟩).map fun r =>
        (r.1, disk target :: r.2) := by
  rw [session, perform]
  simp only [DiskCall.lba, htarget]
  rw [if_pos ⟨hlate, hon⟩, Option.bind_some, Nat.zero_sub]
  rfl

theorem session_write {buffer : Sector} (hlate : lag ≤ 5)
    (htarget : mixedAddress lag address lba.toNat = target) (hon : target < capacity) :
    session capacity delay ((.write lba buffer, n) :: calls) ⟨disk, address, lag, periods⟩ =
      session capacity delay calls
        ⟨Function.update disk target buffer, target, delay (periods + 1) - n, periods + 2⟩ := by
  rw [session, perform]
  simp only [DiskCall.lba, htarget]
  rw [if_pos ⟨hlate, hon⟩, Option.bind_some]
  exact congrFun Option.map_id _

/-- A call that comes more than five accesses too early does not get through. -/
theorem session_stuck {call : DiskCall} (hlate : 5 < lag) :
    session capacity delay ((call, n) :: calls) ⟨disk, address, lag, periods⟩ = none := by
  rw [session, perform.eq_def]
  dsimp only
  rw [if_neg fun h => absurd h.1 (Nat.not_le_of_gt hlate), Option.bind_none]

end Calls

end LateDisk

namespace Drive

/-- The drive appears as that disk. -/
structure Shows (d : Drive) (s : LateDisk) : Prop where
  free : d.Free
  single : d.Single
  eq : s = ⟨d.disk, d.lba, d.busy, d.periods⟩

theorem Idle.shows {d : Drive} (h : d.Idle) : d.Shows ⟨d.disk, d.lba, 0, d.periods⟩ :=
  ⟨h.free, .inl h.settled, by rw [h.settled]⟩

/-- One call, on the drive and on the disk that it shows. -/
theorem Shows.perform {d : Drive} {s : LateDisk} (h : d.Shows s) (vars : AtaVars)
    (call : DiskCall) :
    (∃ s' sectors d', s.perform d.capacity d.delay call = some (s', sectors) ∧
        Ends ataDrive (call.perform vars) d (d', (call.count vars, sectors)) ∧ d'.Shows s' ∧
        d'.capacity = d.capacity ∧ d'.delay = d.delay) ∨
      s.perform d.capacity d.delay call = none ∧
        ∀ r, ¬ Ends ataDrive (call.perform vars) d r := by
  obtain ⟨hfree, hsingle, rfl⟩ := h
  have haccepts : d.Accepts call.lba ↔
      d.busy ≤ 5 ∧ mixedAddress d.busy d.lba call.lba.toNat < d.capacity := by
    rw [← addressed_lba]
    exact ⟨fun h => ⟨h.late, h.onDisk⟩, fun h => ⟨h.1, h.2⟩⟩
  have hcount := addressed_count hsingle call.lba
  have haddress := addressed_lba d call.lba
  by_cases h : d.Accepts call.lba
  · left
    rw [LateDisk.perform.eq_def]
    dsimp only
    rw [if_pos (haccepts.mp h), ← haddress]
    cases call with
    | read lba =>
      refine ⟨_, _, _, rfl, (ataReadSector_ends vars hfree hsingle h).bind (Ends.pure _ _), ?_,
        rfl, rfl⟩
      exact ⟨⟨false, rfl⟩, .inl rfl, rfl⟩
    | write lba buffer =>
      refine ⟨_, _, _, rfl, (ataWriteSector_ends vars buffer hfree hsingle h).bind
        (Ends.pure _ _), ?_, rfl, rfl⟩
      exact ⟨⟨false, rfl⟩, .inr hcount, rfl⟩
  · right
    rw [LateDisk.perform.eq_def]
    dsimp only
    rw [if_neg fun hin => h (haccepts.mpr hin)]
    refine ⟨rfl, fun r hends => ?_⟩
    cases call with
    | read lba =>
      obtain ⟨t, a, hcall, -⟩ := hends.of_bind
      exact not_ataReadSector_ends vars hfree h _ hcall
    | write lba buffer =>
      obtain ⟨t, a, hcall, -⟩ := hends.of_bind
      exact not_ataWriteSector_ends vars buffer hfree h _ hcall

theorem Shows.rest {d : Drive} {s : LateDisk} (h : d.Shows s) (n : Nat) :
    (ataDrive.rest^[n] d).Shows { s with lag := s.lag - n } ∧
      (ataDrive.rest^[n] d).capacity = d.capacity ∧ (ataDrive.rest^[n] d).delay = d.delay := by
  have hrest : ataDrive.rest^[n] d = { d with busy := d.busy - n } := by
    induction n with
    | zero => rfl
    | succ n ih =>
      rw [Function.iterate_succ_apply', ih]
      rfl
  obtain ⟨hfree, hsingle, rfl⟩ := h
  rw [hrest]
  refine ⟨⟨hfree, ?_, rfl⟩, rfl, rfl⟩
  rcases hsingle with hbusy | hcount
  · exact .inl (by show d.busy - n = 0; rw [hbusy, Nat.zero_sub])
  · exact .inr hcount

/-- A session, on the drive and on the disk that it shows. -/
theorem Shows.session {d : Drive} {s : LateDisk} (h : d.Shows s) (vars : AtaVars)
    (calls : Session) :
    (∃ s' sectors d', LateDisk.session d.capacity d.delay calls s = some (s', sectors) ∧
        Ends ataDrive (calls.perform vars) d (d', (calls.count vars, sectors)) ∧ d'.Shows s') ∨
      LateDisk.session d.capacity d.delay calls s = none ∧
        ∀ r, ¬ Ends ataDrive (calls.perform vars) d r := by
  induction calls generalizing vars d s with
  | nil => exact .inl ⟨s, [], d, rfl, Ends.pure _ _, h⟩
  | cons call calls ih =>
    obtain ⟨call, n⟩ := call
    rw [LateDisk.session]
    rcases h.perform vars call with ⟨s', sectors, d', hs', hends, hd', hcap, hdelay⟩ | ⟨hs, hends⟩
    · rw [hs', Option.bind_some]
      obtain ⟨hshows, hcap', hdelay'⟩ := hd'.rest n
      have hnext := ih hshows (call.count vars)
      rw [hcap', hdelay', hcap, hdelay] at hnext
      rcases hnext with ⟨s'', sectors', d'', hs'', hends', hd''⟩ | ⟨hs'', hends'⟩
      · rw [hs'']
        exact .inl ⟨s'', sectors ++ sectors', d'', rfl,
          hends.bind ((ends_pauses n d').bind (hends'.bind (Ends.pure _ _))), hd''⟩
      · rw [hs'']
        refine .inr ⟨rfl, fun r hr => ?_⟩
        rw [Session.perform, hends.bind_iff, (ends_pauses n d').bind_iff] at hr
        obtain ⟨t, a, hcalls, -⟩ := hr.of_bind
        exact hends' _ hcalls
    · rw [hs]
      refine .inr ⟨rfl, fun r hr => ?_⟩
      obtain ⟨t, a, hcall, -⟩ := hr.of_bind
      exact hends _ hcall

theorem Shows.ends {d : Drive} {s s' : LateDisk} (h : d.Shows s) (vars : AtaVars)
    {calls : Session} {sectors : List Sector}
    (hsession : LateDisk.session d.capacity d.delay calls s = some (s', sectors)) :
    ∃ d', Ends ataDrive (calls.perform vars) d (d', (calls.count vars, sectors)) ∧
      d'.Shows s' := by
  rcases h.session vars calls with ⟨s'', sectors', d', hs'', hends, hd'⟩ | ⟨hnone, -⟩
  · cases hsession.symm.trans hs''
    exact ⟨d', hends, hd'⟩
  · cases hsession.symm.trans hnone

theorem Shows.not_ends {d : Drive} {s : LateDisk} (h : d.Shows s) (vars : AtaVars)
    {calls : Session} (hsession : LateDisk.session d.capacity d.delay calls s = none)
    (r : Drive × AtaVars × List Sector) : ¬ Ends ataDrive (calls.perform vars) d r := by
  rcases h.session vars calls with ⟨s', sectors, d', hs', -, -⟩ | ⟨-, hnot⟩
  · cases hsession.symm.trans hs'
  · exact hnot r

/-- Whatever the drive's delays are, the calls see the late disk: they end if and only if it
has a result, and then with its sectors and on its disk. -/
theorem session_ends_iff {d : Drive} {s : LateDisk} (h : d.Shows s) (vars : AtaVars)
    (calls : Session) (s' : LateDisk) (vars' : AtaVars) (sectors : List Sector) :
    (∃ d', Ends ataDrive (calls.perform vars) d (d', (vars', sectors)) ∧ d'.Shows s') ↔
      LateDisk.session d.capacity d.delay calls s = some (s', sectors) ∧
        vars' = calls.count vars := by
  constructor
  · rintro ⟨d', hends, hshows⟩
    rcases h.session vars calls with ⟨s'', sectors', d'', hs'', hends', hd''⟩ | ⟨-, hnot⟩
    · cases hends.unique hends'
      rw [hs'', hshows.eq, hd''.eq]
      exact ⟨rfl, rfl⟩
    · exact absurd hends (hnot _)
  · rintro ⟨hs', rfl⟩
    exact h.ends vars hs'

/-- A drive that is busy for `b` accesses after each command and each sector. -/
def sample (b : Nat) : Drive where
  disk := fun _ => Sector.zero
  capacity := 4096
  identity := fun i => if i.val = 60 then 4096 else 0
  delay := fun _ => b
  periods := 0
  sectorCount := 1
  lbaLow := 0
  lbaMid := 0
  lbaHigh := 0
  device := 0xE0
  busy := 0
  transfer := .none false

theorem sample_idle (b : Nat) : (sample b).Idle := ⟨rfl, false, rfl⟩

def sampleSector : Sector := fun _ => 0x41

/-- A read of sector 2 right after a write of sector 1 returns sector 1. -/
theorem session_ends_sample : ∃ d', Ends ataDrive
      (Session.perform .boot [(.write 1 sampleSector, 0), (.read 2, 0)]) (sample 3)
      (d', (Session.count .boot [(.write 1 sampleSector, 0), (.read 2, 0)],
        [sampleSector])) ∧
    d'.Shows ⟨Function.update (fun _ => Sector.zero) 1 sampleSector, 1, 0, 3⟩ :=
  (session_ends_iff ⟨⟨false, rfl⟩, .inl rfl, rfl⟩ _ _ _ _ _).mpr ⟨by
    simp [LateDisk.session, LateDisk.perform, mixedAddress, DiskCall.lba, sample], rfl⟩

end Drive

/-! ## Sessions with long pauses -/

theorem mixedAddress_zero (old new : Nat) : mixedAddress 0 old new = new % 2 ^ 28 := by
  simp only [mixedAddress, Nat.not_lt_zero, if_false]
  omega

/-- The plain disk, as long as no call finds the drive busy. -/
theorem LateDisk.session_plain {capacity : Nat} {delay : Nat → Nat} {calls : Session}
    (h : calls.Covered capacity delay) (disk : Disk) (address periods : Nat) :
    ∃ address' periods',
      LateDisk.session capacity delay calls ⟨disk, address, 0, periods⟩ =
        some (⟨applyWrites calls.writes disk, address', 0, periods'⟩, calls.reads disk) := by
  induction calls generalizing disk address periods with
  | nil => exact ⟨address, periods, rfl⟩
  | cons call calls ih =>
    have hrest : Session.Covered calls capacity delay :=
      ⟨fun c hc => h.onDisk c (List.mem_cons_of_mem _ hc),
        fun lba buffer n hn => h.pauses lba buffer n (List.mem_cons_of_mem _ hn)⟩
    obtain ⟨call, n⟩ := call
    have hin : call.lba.toNat % 2 ^ 28 < capacity := h.onDisk _ List.mem_cons_self
    cases call with
    | read lba =>
      obtain ⟨address', periods', hsession⟩ :=
        ih hrest disk (lba.toNat % 2 ^ 28) (periods + 1)
      refine ⟨address', periods', ?_⟩
      rw [LateDisk.session_read (Nat.zero_le 5) (mixedAddress_zero _ lba.toNat) hin, hsession]
      rfl
    | write lba buffer =>
      have hlag : delay (periods + 1) - n = 0 :=
        Nat.sub_eq_zero_of_le (h.pauses lba buffer n List.mem_cons_self _)
      obtain ⟨address', periods', hsession⟩ :=
        ih hrest (Function.update disk (lba.toNat % 2 ^ 28) buffer) (lba.toNat % 2 ^ 28)
          (periods + 2)
      refine ⟨address', periods', ?_⟩
      rw [LateDisk.session_write (Nat.zero_le 5) (mixedAddress_zero _ lba.toNat) hin, hlag,
        hsession]
      rfl

theorem Session.count_totals (vars : AtaVars) (calls : Session) (disk : Disk) :
    (calls.count vars).totalDiskReads =
        vars.totalDiskReads + UInt32.ofNat (calls.reads disk).length ∧
      (calls.count vars).totalDiskWrites =
        vars.totalDiskWrites + UInt32.ofNat calls.writes.length := by
  induction calls generalizing vars disk with
  | nil => exact ⟨(UInt32.add_zero _).symm, (UInt32.add_zero _).symm⟩
  | cons call calls ih =>
    obtain ⟨call, n⟩ := call
    cases call with
    | read lba =>
      obtain ⟨hreads, hwrites⟩ := ih vars.readExecuted disk
      refine ⟨?_, hwrites⟩
      show (Session.count vars.readExecuted calls).totalDiskReads = _
      rw [hreads, Session.reads, List.length_cons, UInt32.ofNat_add, UInt32.add_comm
        (UInt32.ofNat _) (UInt32.ofNat 1), ← UInt32.add_assoc]
      rfl
    | write lba buffer =>
      obtain ⟨hreads, hwrites⟩ := ih vars.writeExecuted _
      refine ⟨hreads, ?_⟩
      show (Session.count vars.writeExecuted calls).totalDiskWrites = _
      rw [hwrites, Session.writes, List.length_cons, UInt32.ofNat_add, UInt32.add_comm
        (UInt32.ofNat _) (UInt32.ofNat 1), ← UInt32.add_assoc]
      rfl

/-- With pauses that are long enough, the calls end, the reads return the sectors of the plain
disk, the writes change it, and every call is counted. -/
theorem session_covered {d : Drive} (h : d.Idle) {calls : Session}
    (hcovered : calls.Covered d.capacity d.delay) (vars : AtaVars) :
    ∃ d' vars', Ends ataDrive (calls.perform vars) d (d', (vars', calls.reads d.disk)) ∧
      d'.Idle ∧ d'.disk = applyWrites calls.writes d.disk ∧
      vars'.totalDiskReads = vars.totalDiskReads + UInt32.ofNat (calls.reads d.disk).length ∧
      vars'.totalDiskWrites = vars.totalDiskWrites + UInt32.ofNat calls.writes.length := by
  obtain ⟨address', periods', hsession⟩ :=
    LateDisk.session_plain hcovered d.disk d.lba d.periods
  obtain ⟨d', hends, hd'⟩ := h.shows.ends vars hsession
  have hstate := hd'.eq
  exact ⟨d', calls.count vars, hends, ⟨(congrArg LateDisk.lag hstate).symm, hd'.free⟩,
    (congrArg LateDisk.disk hstate).symm, Session.count_totals vars calls d.disk⟩

theorem session_covered_sample : ∃ d' vars', Ends ataDrive
      (Session.perform .boot
        [(.write 1 Drive.sampleSector, 3), (.read 2, 0)]) (Drive.sample 3)
      (d', (vars', [Sector.zero])) ∧
    d'.Idle ∧ d'.disk = Function.update (fun _ => Sector.zero) 1 Drive.sampleSector ∧
      vars'.totalDiskReads = 0 + UInt32.ofNat 1 ∧ vars'.totalDiskWrites = 0 + UInt32.ofNat 1 := by
  refine session_covered (Drive.sample_idle 3) ⟨fun c hc => ?_, fun lba buffer n hn k => ?_⟩ _
  · rcases List.mem_pair.mp hc with rfl | rfl <;> decide
  · rcases List.mem_pair.mp hn with heq | heq
    · cases heq
      exact Nat.le_refl 3
    · cases heq

end Newrex
