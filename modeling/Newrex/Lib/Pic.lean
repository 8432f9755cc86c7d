import Mathlib.Data.List.FinRange
import Mathlib.Logic.Function.Basic
import Newrex.Lib.PortIO

/-!
# Two interrupt controllers

A pair of controllers of the 8259 kind. Each has eight lines, latches their requests, and keeps a
line in service from the acknowledgement until a command that ends the interrupt. The output of
the slave is wired to line 2 of the master. A line is served when it is requested and not masked
and no line of the same or of a higher priority is in service.

* `Pair.acknowledge_eq`: when nothing is in service, the pending line of the highest priority is
  acknowledged;
* `Chip.Serving.eoi`: the command ends the only interrupt that is in service, and does nothing
  when there is none.
-/

namespace Pic

open PortIO

/-- What the next write to the data port is: the mask, or one of the words of the
initialization. -/
inductive Stage
  | running
  | base (cascaded icw4 : Bool)
  | wiring (icw4 : Bool)
  | mode
deriving DecidableEq

structure Chip where
  base : UInt8
  wiring : UInt8
  mask : UInt8
  requests : Fin 8 → Bool
  inService : Fin 8 → Bool
  stage : Stage

/-- The line of the highest priority with a property. -/
def first (P : Fin 8 → Bool) : Option (Fin 8) := (List.finRange 8).find? P

namespace Chip

def masked (c : Chip) (i : Fin 8) : Bool := c.mask.toNat.testBit i

/-- The line that the chip asks to serve, if its lines are in the state `raised`. -/
def candidate (c : Chip) (raised : Fin 8 → Bool) : Option (Fin 8) :=
  first fun i => raised i && !c.masked i && decide (∀ j, j ≤ i → c.inService j = false)

/-- The line goes into service. -/
def accept (c : Chip) (i : Fin 8) : Chip :=
  { c with
    requests := Function.update c.requests i false
    inService := Function.update c.inService i true }

/-- The end of the interrupt of the highest priority. -/
def eoi (c : Chip) : Chip :=
  match first c.inService with
  | some i => { c with inService := Function.update c.inService i false }
  | none => c

/-- A write to the command port: the first word of the initialization or the end of an
interrupt. Other commands are left out. -/
def command (c : Chip) (data : UInt8) : Chip :=
  if data &&& 0x10 ≠ 0 then
    { c with
      mask := 0
      requests := fun _ => false
      inService := fun _ => false
      stage := .base (decide (data &&& 0x02 = 0)) (decide (data &&& 0x01 ≠ 0)) }
  else if data = 0x20 then c.eoi
  else c

def data (c : Chip) (data : UInt8) : Chip :=
  match c.stage with
  | .running => { c with mask := data }
  | .base cascaded icw4 =>
    { c with
      base := data &&& 0xF8
      stage := if cascaded then .wiring icw4 else if icw4 then .mode else .running }
  | .wiring icw4 => { c with wiring := data, stage := if icw4 then .mode else .running }
  | .mode => { c with stage := .running }

end Chip

structure Pair where
  master : Chip
  slave : Chip

/-- The sixteen lines. Line 2 of the master is the slave. -/
inductive Line
  | master (i : Fin 8)
  | slave (k : Fin 8)
deriving DecidableEq

namespace Line

/-- The priorities, of which 0 is the highest. The lines of the slave are in the place of line
2. -/
def rank : Line → Nat
  | master i => 9 * i
  | slave k => 18 + k

theorem rank_slave_le_master {j : Fin 8} (hne : j ≠ 2) (hj : 2 ≤ j) (k : Fin 8) :
    (slave k).rank ≤ (master j).rank := by
  have hlt : 2 < j.val := Nat.lt_of_le_of_ne (Fin.le_def.mp hj) fun h => hne (Fin.ext h.symm)
  show 18 + k.val ≤ 9 * j.val
  omega

theorem rank_master_le_slave {i : Fin 8} (hi : i ≤ 2) (k : Fin 8) :
    (master i).rank ≤ (slave k).rank := by
  have hle : i.val ≤ 2 := Fin.le_def.mp hi
  show 9 * i.val ≤ 18 + k.val
  omega

end Line

namespace Pair

def request (p : Pair) : Line → Pair
  | .master i => { p with master.requests := Function.update p.master.requests i true }
  | .slave k => { p with slave.requests := Function.update p.slave.requests k true }

def slaveCandidate (p : Pair) : Option (Fin 8) := p.slave.candidate p.slave.requests

/-- The lines of the master. -/
def raised (p : Pair) (i : Fin 8) : Bool :=
  if i = 2 then p.slaveCandidate.isSome else p.master.requests i

/-- The controllers have been told how they are wired. -/
def wired (p : Pair) : Bool := p.master.wiring.toNat.testBit 2 && p.slave.wiring.toNat == 2

/-- The processor acknowledges an interrupt and gets its vector. -/
def acknowledge (p : Pair) : Option (UInt8 × Pair) := do
  let i ← p.master.candidate p.raised
  if i = 2 ∧ p.wired then
    let k ← p.slaveCandidate
    some (p.slave.base + UInt8.ofNat k, ⟨p.master.accept i, p.slave.accept k⟩)
  else some (p.master.base + UInt8.ofNat i, { p with master := p.master.accept i })

/-- The ports. -/
def device : Device Pair where
  write p port value :=
    if port = 0x20 then { p with master := p.master.command value.toUInt8 }
    else if port = 0x21 then { p with master := p.master.data value.toUInt8 }
    else if port = 0xA0 then { p with slave := p.slave.command value.toUInt8 }
    else if port = 0xA1 then { p with slave := p.slave.data value.toUInt8 }
    else p
  read p port :=
    if port = 0x21 then (p, p.master.mask.toUInt16)
    else if port = 0xA1 then (p, p.slave.mask.toUInt16)
    else (p, 0xFF)
  rest p := p

end Pair

/-! ## Priorities -/

theorem first_eq_some {P : Fin 8 → Bool} {i : Fin 8} :
    first P = some i ↔ P i = true ∧ ∀ j, j < i → P j = false := by
  rw [first, List.find?_eq_some_iff_getElem]
  constructor
  · rintro ⟨hi, n, hn, heq, hbefore⟩
    rw [List.getElem_finRange] at heq
    cases heq
    refine ⟨hi, fun j hj => ?_⟩
    have hj' := hbefore j.val (Fin.lt_def.mp hj)
    rw [List.getElem_finRange] at hj'
    exact Bool.eq_false_iff.mpr (fun h => by simp [h] at hj')
  · rintro ⟨hi, hbefore⟩
    refine ⟨hi, i.val, by rw [List.length_finRange]; exact i.isLt, List.getElem_finRange .., ?_⟩
    intro j hj
    rw [List.getElem_finRange, Bool.not_eq_true']
    exact hbefore _ hj

theorem first_eq_none {P : Fin 8 → Bool} : first P = none ↔ ∀ i, P i = false := by
  rw [first, List.find?_eq_none]
  constructor
  · exact fun h i => Bool.eq_false_iff.mpr (h i (List.mem_finRange i))
  · exact fun h i _ => Bool.eq_false_iff.mp (h i)

namespace Chip

variable {c : Chip} {i : Fin 8} {raised : Fin 8 → Bool}

/-! ## Service -/

/-- Nothing is in service. -/
def Idle (c : Chip) : Prop := ∀ i, c.inService i = false

/-- The line `i` is the only one in service. -/
def Serving (c : Chip) (i : Fin 8) : Prop := ∀ j, c.inService j = decide (j = i)

theorem Idle.accept (h : c.Idle) (i : Fin 8) : (c.accept i).Serving i := by
  intro j
  show Function.update c.inService i true j = decide (j = i)
  rw [Function.update_apply]
  split
  case isTrue hj => exact (decide_eq_true hj).symm
  case isFalse hj => exact (h j).trans (decide_eq_false hj).symm

theorem Idle.eoi (h : c.Idle) : c.eoi = c := by
  rw [Chip.eoi, first_eq_none.mpr h]

theorem Idle.idle_eoi (h : c.Idle) : c.eoi.Idle := by
  rw [h.eoi]
  exact h

theorem Serving.eoi (h : c.Serving i) : c.eoi.Idle := by
  have hfirst : first c.inService = some i := first_eq_some.mpr
    ⟨(h i).trans (decide_eq_true rfl), fun j hj => (h j).trans (decide_eq_false hj.ne)⟩
  rw [Chip.eoi, hfirst]
  intro j
  show Function.update c.inService i false j = false
  rw [Function.update_apply]
  split
  case isTrue => rfl
  case isFalse hj => exact (h j).trans (decide_eq_false hj)

/-- The end of an interrupt only changes what is in service. -/
theorem eoi_frame (c : Chip) : ∃ inService, c.eoi = { c with inService := inService } := by
  rw [Chip.eoi]
  split
  · exact ⟨_, rfl⟩
  · exact ⟨c.inService, rfl⟩

/-- Some line is requested and not masked. -/
theorem Idle.candidate_isSome (h : c.Idle) (hraised : raised i = true)
    (hmask : c.masked i = false) : (c.candidate raised).isSome = true := by
  refine Option.isSome_iff_ne_none.mpr fun hnone => ?_
  have hi := first_eq_none.mp hnone i
  rw [hraised, hmask, decide_eq_true fun j _ => h j] at hi
  cases hi

/-- The candidate is the first such line. -/
theorem Idle.candidate (h : c.Idle) (hi : c.candidate raised = some i) :
    raised i = true ∧ c.masked i = false ∧
      ∀ j, raised j = true → c.masked j = false → i ≤ j := by
  obtain ⟨hmem, hbefore⟩ := first_eq_some.mp hi
  simp only [Bool.and_eq_true, Bool.not_eq_true', decide_eq_true_eq] at hmem
  refine ⟨hmem.1.1, hmem.1.2, fun j hj hmask => Fin.not_lt.mp fun hlt => ?_⟩
  have hfalse := hbefore j hlt
  rw [hj, hmask, decide_eq_true fun j _ => h j] at hfalse
  cases hfalse

end Chip

namespace Pair

variable {p p' : Pair} {l : Line}

/-- Nothing is in service. -/
def Idle (p : Pair) : Prop := p.master.Idle ∧ p.slave.Idle

def requested (p : Pair) : Line → Bool
  | .master i => p.master.requests i
  | .slave k => p.slave.requests k

/-- Requests of the line come through. -/
def Unmasked (p : Pair) : Line → Prop
  | .master i => i ≠ 2 ∧ p.master.masked i = false
  | .slave k => p.slave.masked k = false ∧ p.master.masked 2 = false

instance (p : Pair) (l : Line) : Decidable (p.Unmasked l) :=
  match l with
  | .master _ => inferInstanceAs (Decidable (_ ∧ _))
  | .slave _ => inferInstanceAs (Decidable (_ ∧ _))

def Pending (p : Pair) (l : Line) : Prop := p.requested l = true ∧ p.Unmasked l

/-- The vector of a line. -/
def vector (p : Pair) : Line → UInt8
  | .master i => p.master.base + UInt8.ofNat i
  | .slave k => p.slave.base + UInt8.ofNat k

/-- The line goes into service. -/
def accepted (p : Pair) : Line → Pair
  | .master i => { p with master := p.master.accept i }
  | .slave k => ⟨p.master.accept 2, p.slave.accept k⟩

theorem requested_request (p : Pair) (l l' : Line) :
    (p.request l).requested l' = (decide (l' = l) || p.requested l') := by
  cases l <;> cases l' <;> simp [request, requested, Function.update_apply]

/-- An acknowledgement takes the request with it. -/
theorem requested_accepted {p : Pair} {l l' : Line} (h : (p.accepted l).requested l' = true) :
    p.requested l' = true ∧ l' ≠ l := by
  have hupdate {P : Fin 8 → Bool} {i j : Fin 8} (hj : Function.update P i false j = true) :
      P j = true ∧ j ≠ i := by
    rw [Function.update_apply] at hj
    split at hj
    case isTrue => cases hj
    case isFalse hne => exact ⟨hj, hne⟩
  cases l with
  | master i =>
    cases l' with
    | master j => exact ⟨(hupdate h).1, fun heq => (hupdate h).2 (Line.master.inj heq)⟩
    | slave j => exact ⟨h, nofun⟩
  | slave k =>
    cases l' with
    | master j => exact ⟨(hupdate h).1, nofun⟩
    | slave j => exact ⟨(hupdate h).1, fun heq => (hupdate h).2 (Line.slave.inj heq)⟩

theorem requested_eoiMaster (p : Pair) (l : Line) :
    ({ p with master := p.master.eoi } : Pair).requested l = p.requested l := by
  obtain ⟨inService, h⟩ := p.master.eoi_frame
  rw [h]
  cases l with
  | master => rfl
  | slave => rfl

theorem requested_eoiSlave (p : Pair) (l : Line) :
    ({ p with slave := p.slave.eoi } : Pair).requested l = p.requested l := by
  obtain ⟨inService, h⟩ := p.slave.eoi_frame
  rw [h]
  cases l with
  | master => rfl
  | slave => rfl

/-- The pending line of the highest priority. -/
def Foremost (p : Pair) (l : Line) : Prop := p.Pending l ∧ ∀ l', p.Pending l' → l.rank ≤ l'.rank

theorem Pending.acknowledge (h : p.Pending l) (hidle : p.Idle) :
    p.acknowledge.isSome = true := by
  have hraised : ∃ i, p.raised i = true ∧ p.master.masked i = false := by
    cases l with
    | master i => exact ⟨i, (if_neg h.2.1).trans h.1, h.2.2⟩
    | slave k => exact ⟨2, (if_pos rfl).trans (hidle.2.candidate_isSome h.1 h.2.1), h.2.2⟩
  obtain ⟨i, hi, hmask⟩ := hraised
  obtain ⟨i', hi'⟩ := Option.isSome_iff_exists.mp (hidle.1.candidate_isSome hi hmask)
  rw [Pair.acknowledge, hi', Option.bind_eq_bind, Option.bind_some]
  split
  case isTrue htwo =>
    have hslave : p.slaveCandidate.isSome = true := by
      have hraised := (hidle.1.candidate hi').1
      rw [raised, if_pos htwo.1] at hraised
      exact hraised
    obtain ⟨k, hk⟩ := Option.isSome_iff_exists.mp hslave
    rw [hk]
    rfl
  case isFalse => rfl

/-- When nothing is in service, the pending line of the highest priority is acknowledged. -/
theorem acknowledge_eq (hidle : p.Idle) (hwired : p.wired = true) {v : UInt8}
    (h : p.acknowledge = some (v, p')) :
    ∃ l, p.Foremost l ∧ v = p.vector l ∧ p' = p.accepted l := by
  obtain ⟨i, hi, h⟩ := Option.bind_eq_some_iff.mp h
  obtain ⟨hraised, hmask, hbefore⟩ := hidle.1.candidate hi
  have hslave {k : Fin 8} (hk : p.Pending (.slave k)) : i ≤ 2 :=
    hbefore 2 ((if_pos rfl).trans (hidle.2.candidate_isSome hk.1 hk.2.1)) hk.2.2
  split at h
  case isTrue htwo =>
    obtain ⟨rfl, -⟩ := htwo
    obtain ⟨k, hk, h⟩ := Option.bind_eq_some_iff.mp h
    obtain ⟨hrequest, hmask', hbefore'⟩ := hidle.2.candidate hk
    cases h
    refine ⟨.slave k, ⟨⟨hrequest, hmask', hmask⟩, fun l' hl' => ?_⟩, rfl, rfl⟩
    cases l' with
    | master j =>
      have hj := hbefore j ((if_neg hl'.2.1).trans hl'.1) hl'.2.2
      exact Line.rank_slave_le_master hl'.2.1 hj k
    | slave k' => exact Nat.add_le_add_left (Fin.le_def.mp (hbefore' k' hl'.1 hl'.2.1)) 18
  case isFalse htwo =>
    have hne : i ≠ 2 := fun hi => htwo ⟨hi, hwired⟩
    cases h
    rw [raised, if_neg hne] at hraised
    refine ⟨.master i, ⟨⟨hraised, hne, hmask⟩, fun l' hl' => ?_⟩, rfl, rfl⟩
    cases l' with
    | master j =>
      have hj := hbefore j ((if_neg hl'.2.1).trans hl'.1) hl'.2.2
      exact Nat.mul_le_mul_left 9 (Fin.le_def.mp hj)
    | slave k => exact Line.rank_master_le_slave (hslave hl') k

/-! ## Settings -/

/-- What only the initialization and the masks change. -/
def settings (p : Pair) : (UInt8 × UInt8 × UInt8) × UInt8 × UInt8 × UInt8 :=
  ((p.master.base, p.master.wiring, p.master.mask), p.slave.base, p.slave.wiring, p.slave.mask)

theorem settings_request (p : Pair) (l : Line) : (p.request l).settings = p.settings := by
  cases l with
  | master => rfl
  | slave => rfl

theorem settings_accepted (p : Pair) (l : Line) : (p.accepted l).settings = p.settings := by
  cases l with
  | master => rfl
  | slave => rfl

theorem settings_eoiMaster (p : Pair) :
    ({ p with master := p.master.eoi } : Pair).settings = p.settings := by
  obtain ⟨inService, h⟩ := p.master.eoi_frame
  rw [h]
  rfl

theorem settings_eoiSlave (p : Pair) :
    ({ p with slave := p.slave.eoi } : Pair).settings = p.settings := by
  obtain ⟨inService, h⟩ := p.slave.eoi_frame
  rw [h]
  rfl

section

variable (h : p.settings = p'.settings)
include h

theorem wired_congr : p.wired = p'.wired := by
  have hmaster : p.master.wiring = p'.master.wiring := congrArg (fun s => s.1.2.1) h
  have hslave : p.slave.wiring = p'.slave.wiring := congrArg (fun s => s.2.2.1) h
  rw [wired, hmaster, hslave]
  rfl

theorem vector_congr (l : Line) : p.vector l = p'.vector l := by
  cases l with
  | master i => exact congrArg (fun s => s.1.1 + UInt8.ofNat i) h
  | slave k => exact congrArg (fun s => s.2.1 + UInt8.ofNat k) h

theorem unmasked_congr (l : Line) : p.Unmasked l ↔ p'.Unmasked l := by
  have hmaster : p.master.mask = p'.master.mask := congrArg (fun s => s.1.2.2) h
  have hslave : p.slave.mask = p'.slave.mask := congrArg (fun s => s.2.2.2) h
  cases l with
  | master i => rw [Unmasked, Unmasked, Chip.masked, Chip.masked, hmaster]
  | slave k =>
    rw [Unmasked, Unmasked, Chip.masked, Chip.masked, Chip.masked, Chip.masked, hmaster, hslave]

end

end Pair

end Pic
