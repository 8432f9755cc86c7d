import Mathlib.Data.Nat.Basic

/-!
# The real-time clock

`read_rtc` of `kernel/kernel.c` (`drivers/rtc.c` has the same code): it reads the registers of
the clock until two passes agree, and converts what it read by the format in register B. With
the twelve-hour format the hour 12 stays 12 before noon and becomes 0 after noon.

* `readRtc_readTwice`: what is converted was read in two successive passes;
* `Rtc.readRtc_ends`: the loops end when the update flag clears again and again and the
  registers stay as they are;
* `read_rtc_exact_iff`: a time is read as it is exactly in a 24-hour format or at another hour
  than 0 and 12;
* `midnight_misread`: midnight in the twelve-hour format.
-/

namespace Newrex

/-- The answers of the clock: what the n-th access to port 0x71 reads from a register. -/
abbrev Cmos := Nat → UInt8 → UInt8

namespace Rtc

/-- The variables that a pass reads. The year is an `unsigned int`. -/
@[ext]
structure Registers where
  rtcSecond : UInt8
  rtcMinute : UInt8
  rtcHour : UInt8
  rtcDay : UInt8
  rtcMonth : UInt8
  rtcYear : Nat
  century : UInt8
deriving DecidableEq, Repr

/-- The variables that the shell prints. -/
structure Clock where
  rtcSecond : UInt8
  rtcMinute : UInt8
  rtcHour : UInt8
  rtcDay : UInt8
  rtcMonth : UInt8
  rtcYear : Nat
deriving DecidableEq, Repr

/-- `while (get_update_in_progress_flag());` from the n-th access on, with the number of the
next access. -/
def waitUpdate (cmos : Cmos) : (fuel : Nat) → (n : Nat) → Option Nat
  | 0, _ => none
  | fuel + 1, n =>
    if cmos n 0x0A &&& 0x80 ≠ 0 then waitUpdate cmos fuel (n + 1) else some (n + 1)

/-- One pass over the registers, from the n-th access on. -/
def readRegisters (cmos : Cmos) (n : Nat) : Registers where
  rtcSecond := cmos n 0x00
  rtcMinute := cmos (n + 1) 0x02
  rtcHour := cmos (n + 2) 0x04
  rtcDay := cmos (n + 3) 0x07
  rtcMonth := cmos (n + 4) 0x08
  rtcYear := (cmos (n + 5) 0x09).toNat
  century := cmos (n + 6) 0x32

/-- The condition of the loop. `last_year` is an `unsigned char`. -/
def Changed (last cur : Registers) : Prop :=
  last.rtcSecond ≠ cur.rtcSecond ∨ last.rtcMinute ≠ cur.rtcMinute ∨
    last.rtcHour ≠ cur.rtcHour ∨ last.rtcDay ≠ cur.rtcDay ∨ last.rtcMonth ≠ cur.rtcMonth ∨
    last.rtcYear % 256 ≠ cur.rtcYear ∨ last.century ≠ cur.century

instance (last cur : Registers) : Decidable (Changed last cur) :=
  inferInstanceAs (Decidable (_ ∨ _))

/-- The loop that reads until two passes agree: the last pass, and the number of the next
access. -/
def readLoop (cmos : Cmos) : (fuel : Nat) → (last : Registers) → (n : Nat) →
    Option (Registers × Nat)
  | 0, _, _ => none
  | fuel + 1, last, n =>
    match waitUpdate cmos fuel n with
    | none => none
    | some n =>
      let cur := readRegisters cmos n
      if Changed last cur then readLoop cmos fuel cur (n + 7) else some (cur, n + 7)

def bcdToBinary (b : UInt8) : UInt8 := (b &&& 0x0F) + (b / 16) * 10

/-- The conversion of the hour, which keeps the bit for the afternoon. -/
def hourToBinary (h : UInt8) : UInt8 :=
  ((h &&& 0x0F) + ((h &&& 0x70) / 16) * 10) ||| (h &&& 0x80)

/-- The conversion from BCD. -/
def fromBcd (r : Registers) : Registers where
  rtcSecond := bcdToBinary r.rtcSecond
  rtcMinute := bcdToBinary r.rtcMinute
  rtcHour := hourToBinary r.rtcHour
  rtcDay := bcdToBinary r.rtcDay
  rtcMonth := bcdToBinary r.rtcMonth
  rtcYear := (r.rtcYear &&& 0x0F) + (r.rtcYear / 16) * 10
  century := bcdToBinary r.century

/-- What `read_rtc` does with the registers when its loop has ended. -/
def convert (r : Registers) (registerB : UInt8) : Clock :=
  let r := if registerB &&& 0x04 = 0 then fromBcd r else r
  let hour :=
    if registerB &&& 0x02 = 0 ∧ r.rtcHour &&& 0x80 ≠ 0 then ((r.rtcHour &&& 0x7F) + 12) % 24
    else r.rtcHour
  let year :=
    if r.century ≠ 0 then r.rtcYear + r.century.toNat * 100
    else r.rtcYear + (if r.rtcYear > 69 then 1900 else 2000)
  ⟨r.rtcSecond, r.rtcMinute, hour, r.rtcDay, r.rtcMonth, year⟩

/-- `read_rtc`. -/
def readRtc (cmos : Cmos) (fuel : Nat) : Option Clock :=
  match waitUpdate cmos fuel 0 with
  | none => none
  | some n =>
    match readLoop cmos fuel (readRegisters cmos n) (n + 7) with
    | none => none
    | some (r, n) => some (convert r (cmos n 0x0B))

/-! ## Two passes that agree -/

/-- A pass of the run begins at the n-th access. -/
inductive PassAt (cmos : Cmos) : Nat → Prop
  | first {fuel n : Nat} : waitUpdate cmos fuel 0 = some n → PassAt cmos n
  | next {fuel n m : Nat} : PassAt cmos n → waitUpdate cmos fuel (n + 7) = some m →
      PassAt cmos m

/-- The result comes from values that a pass and the one right after it have read alike. -/
def ReadTwice (cmos : Cmos) (clock : Clock) : Prop :=
  ∃ n m fuel, PassAt cmos n ∧ waitUpdate cmos fuel (n + 7) = some m ∧
    readRegisters cmos n = readRegisters cmos m ∧
    clock = convert (readRegisters cmos m) (cmos (m + 7) 0x0B)

theorem eq_of_not_changed {cmos : Cmos} {n m : Nat}
    (h : ¬ Changed (readRegisters cmos n) (readRegisters cmos m)) :
    readRegisters cmos n = readRegisters cmos m := by
  have hyear := (cmos (n + 5) 0x09).toNat_lt
  simp only [Changed, not_or, not_not] at h
  obtain ⟨hsecond, hminute, hhour, hday, hmonth, hlast, hcentury⟩ := h
  have hbyte : (readRegisters cmos n).rtcYear % 256 = (readRegisters cmos n).rtcYear :=
    Nat.mod_eq_of_lt hyear
  rw [hbyte] at hlast
  exact Registers.ext hsecond hminute hhour hday hmonth hlast hcentury

theorem readLoop_spec {cmos : Cmos} {fuel n k : Nat} {r : Registers} (hpass : PassAt cmos n)
    (h : readLoop cmos fuel (readRegisters cmos n) (n + 7) = some (r, k)) :
    ∃ n m fuel, PassAt cmos n ∧ waitUpdate cmos fuel (n + 7) = some m ∧
      readRegisters cmos n = readRegisters cmos m ∧ r = readRegisters cmos m ∧ k = m + 7 := by
  induction fuel generalizing n with
  | zero => cases h
  | succ fuel ih =>
    rw [readLoop] at h
    cases hwait : waitUpdate cmos fuel (n + 7) with
    | none =>
      rw [hwait] at h
      cases h
    | some m =>
      rw [hwait] at h
      dsimp only at h
      split at h
      · exact ih (hpass.next hwait) h
      · cases h
        exact ⟨n, m, fuel, hpass, hwait, eq_of_not_changed ‹_›, rfl, rfl⟩

theorem readRtc_readTwice {cmos : Cmos} {fuel : Nat} {clock : Clock}
    (h : readRtc cmos fuel = some clock) : ReadTwice cmos clock := by
  rw [readRtc] at h
  cases hwait : waitUpdate cmos fuel 0 with
  | none =>
    rw [hwait] at h
    cases h
  | some n =>
    rw [hwait] at h
    dsimp only at h
    cases hloop : readLoop cmos fuel (readRegisters cmos n) (n + 7) with
    | none =>
      rw [hloop] at h
      cases h
    | some found =>
      obtain ⟨r, k⟩ := found
      rw [hloop] at h
      cases h
      obtain ⟨n, m, fuel, hpass, hnext, hsame, rfl, rfl⟩ := readLoop_spec (.first hwait) hloop
      exact ⟨n, m, fuel, hpass, hnext, hsame, rfl⟩

/-! ## The loops end -/

/-- The update flag is clear again and again. -/
def Clears (cmos : Cmos) : Prop := ∀ n, ∃ m, n ≤ m ∧ cmos m 0x0A &&& 0x80 = 0

theorem waitUpdate_ends {cmos : Cmos} (hclears : Clears cmos) (n : Nat) :
    ∃ fuel m, waitUpdate cmos fuel n = some m := by
  obtain ⟨k, hk, hclear⟩ := hclears n
  obtain ⟨d, rfl⟩ := Nat.le.dest hk
  clear hk
  induction d generalizing n with
  | zero => exact ⟨1, n + 1, if_neg (not_not_intro hclear)⟩
  | succ d ih =>
    obtain ⟨fuel, m, hm⟩ := ih (n + 1) (by rwa [Nat.add_right_comm])
    by_cases hnow : cmos n 0x0A &&& 0x80 = 0
    · exact ⟨1, n + 1, if_neg (not_not_intro hnow)⟩
    · exact ⟨fuel + 1, m, (if_pos hnow).trans hm⟩

theorem waitUpdate_mono {cmos : Cmos} {fuel fuel' n m : Nat} (hle : fuel ≤ fuel')
    (h : waitUpdate cmos fuel n = some m) : waitUpdate cmos fuel' n = some m := by
  induction fuel generalizing fuel' n with
  | zero => cases h
  | succ fuel ih =>
    cases fuel' with
    | zero => cases hle
    | succ fuel' =>
      rw [waitUpdate] at h ⊢
      by_cases hbusy : cmos n 0x0A &&& 0x80 ≠ 0
      · rw [if_pos hbusy] at h ⊢
        exact ih (Nat.le_of_succ_le_succ hle) h
      · rw [if_neg hbusy] at h ⊢
        exact h

/-- The registers of the time keep the values of `r`. -/
def Steady (cmos : Cmos) (r : Registers) : Prop := ∀ n, readRegisters cmos n = r

theorem not_changed_self {cmos : Cmos} {n : Nat} :
    ¬ Changed (readRegisters cmos n) (readRegisters cmos n) := by
  have hyear : (readRegisters cmos n).rtcYear % 256 = (readRegisters cmos n).rtcYear :=
    Nat.mod_eq_of_lt (cmos (n + 5) 0x09).toNat_lt
  simp [Changed, hyear]

theorem readRtc_ends {cmos : Cmos} (hclears : Clears cmos) {r : Registers}
    (hsteady : Steady cmos r) : ∃ fuel clock, readRtc cmos fuel = some clock := by
  obtain ⟨fuel, n, hn⟩ := waitUpdate_ends hclears 0
  obtain ⟨fuel', m, hm⟩ := waitUpdate_ends hclears (n + 7)
  have hfirst : waitUpdate cmos (max fuel fuel' + 1) 0 = some n :=
    waitUpdate_mono (by omega) hn
  have hsecond : waitUpdate cmos (max fuel fuel') (n + 7) = some m :=
    waitUpdate_mono (by omega) hm
  have hloop : readLoop cmos (max fuel fuel' + 1) (readRegisters cmos n) (n + 7) =
      some (readRegisters cmos m, m + 7) := by
    rw [readLoop, hsecond]
    have hsame : readRegisters cmos n = readRegisters cmos m :=
      (hsteady n).trans (hsteady m).symm
    rw [hsame]
    exact if_neg not_changed_self
  refine ⟨max fuel fuel' + 1, convert (readRegisters cmos m) (cmos (m + 7) 0x0B), ?_⟩
  rw [readRtc, hfirst]
  dsimp only
  rw [hloop]

/-- A steady clock is read as its registers say. -/
theorem readRtc_steady {cmos : Cmos} {r : Registers} (hsteady : Steady cmos r)
    {registerB : UInt8} (hB : ∀ n, cmos n 0x0B = registerB) {fuel : Nat} {clock : Clock}
    (h : readRtc cmos fuel = some clock) : clock = convert r registerB := by
  obtain ⟨n, m, fuel, -, -, -, hclock⟩ := readRtc_readTwice h
  rw [hclock, hsteady m, hB]

/-! ## The formats of register B -/

/-- A time of the calendar. -/
structure CalendarTime where
  century : Nat
  year : Nat
  month : Nat
  day : Nat
  hour : Nat
  minute : Nat
  second : Nat
  century_range : 1 ≤ century ∧ century ≤ 99
  year_lt : year < 100
  month_range : 1 ≤ month ∧ month ≤ 12
  day_range : 1 ≤ day ∧ day ≤ 31
  hour_lt : hour < 24
  minute_lt : minute < 60
  second_lt : second < 60

/-- Bit 2 of register B: numbers are binary, and not BCD. -/
def IsBinary (registerB : UInt8) : Prop := registerB &&& 0x04 ≠ 0

/-- Bit 1 of register B: hours count from 0 to 23, and not from 1 to 12 twice. -/
def Is24Hour (registerB : UInt8) : Prop := registerB &&& 0x02 ≠ 0

instance (registerB : UInt8) : Decidable (IsBinary registerB) :=
  inferInstanceAs (Decidable (_ ≠ _))

instance (registerB : UInt8) : Decidable (Is24Hour registerB) :=
  inferInstanceAs (Decidable (_ ≠ _))

/-- A number of two digits in a register. -/
def encode (binary : Bool) (v : Nat) : UInt8 :=
  UInt8.ofNat (if binary then v else v / 10 * 16 + v % 10)

/-- An hour in its register. In the twelve-hour format bit 7 says that it is after noon. -/
def encodeHour (binary is24Hour : Bool) (hour : Nat) : UInt8 :=
  if is24Hour then encode binary hour
  else encode binary (if hour % 12 = 0 then 12 else hour % 12) ||| if 12 ≤ hour then 0x80 else 0

/-- The registers of a time in the format of register B. -/
def CalendarTime.registers (t : CalendarTime) (registerB : UInt8) : Registers :=
  let binary : Bool := IsBinary registerB
  { rtcSecond := encode binary t.second
    rtcMinute := encode binary t.minute
    rtcHour := encodeHour binary (Is24Hour registerB) t.hour
    rtcDay := encode binary t.day
    rtcMonth := encode binary t.month
    rtcYear := (encode binary t.year).toNat
    century := encode binary t.century }

/-- The variables that hold a time. -/
def CalendarTime.clock (t : CalendarTime) : Clock where
  rtcSecond := UInt8.ofNat t.second
  rtcMinute := UInt8.ofNat t.minute
  rtcHour := UInt8.ofNat t.hour
  rtcDay := UInt8.ofNat t.day
  rtcMonth := UInt8.ofNat t.month
  rtcYear := t.century * 100 + t.year

theorem bcdToBinary_encode : ∀ v, v < 100 → bcdToBinary (encode false v) = UInt8.ofNat v := by
  decide

theorem bcd_year : ∀ v, v < 100 →
    ((encode false v).toNat &&& 0x0F) + (encode false v).toNat / 16 * 10 = v := by
  decide

theorem hourToBinary_encodeHour : ∀ is24Hour : Bool, ∀ hour, hour < 24 →
    hourToBinary (encodeHour false is24Hour hour) = encodeHour true is24Hour hour := by
  decide

/-- The registers in binary. -/
theorem decoded_registers (t : CalendarTime) (registerB : UInt8) :
    (if registerB &&& 0x04 = 0 then fromBcd (t.registers registerB) else t.registers registerB) =
      { rtcSecond := UInt8.ofNat t.second
        rtcMinute := UInt8.ofNat t.minute
        rtcHour := encodeHour true (Is24Hour registerB) t.hour
        rtcDay := UInt8.ofNat t.day
        rtcMonth := UInt8.ofNat t.month
        rtcYear := t.year
        century := UInt8.ofNat t.century } := by
  by_cases hbcd : registerB &&& 0x04 = 0
  · have hformat : ¬ IsBinary registerB := not_not_intro hbcd
    have hsecond := bcdToBinary_encode t.second (by have := t.second_lt; omega)
    have hminute := bcdToBinary_encode t.minute (by have := t.minute_lt; omega)
    have hday := bcdToBinary_encode t.day (by have := t.day_range; omega)
    have hmonth := bcdToBinary_encode t.month (by have := t.month_range; omega)
    have hcentury := bcdToBinary_encode t.century (by have := t.century_range; omega)
    have hyear := bcd_year t.year t.year_lt
    have hhour := hourToBinary_encodeHour (Is24Hour registerB) t.hour t.hour_lt
    rw [if_pos hbcd, fromBcd, CalendarTime.registers]
    simp only [decide_eq_false hformat, hsecond, hminute, hday, hmonth, hcentury, hyear, hhour]
  · have hformat : IsBinary registerB := hbcd
    have hyear : (encode true t.year).toNat = t.year :=
      UInt8.toNat_ofNat_of_lt (by have := t.year_lt; show t.year < 256; omega)
    rw [if_neg hbcd, CalendarTime.registers]
    simp only [decide_eq_true hformat, hyear]
    rfl

/-- The twelve-hour step takes midnight for noon and noon for midnight. -/
theorem hour_of_twelve : ∀ hour, hour < 24 →
    (if encodeHour true false hour &&& 0x80 ≠ 0 then
      ((encodeHour true false hour &&& 0x7F) + 12) % 24
    else encodeHour true false hour) =
      UInt8.ofNat (if hour % 12 = 0 then 12 - hour else hour) := by
  decide

/-- What is read from the registers of a time. -/
theorem convert_registers (t : CalendarTime) (registerB : UInt8) :
    convert (t.registers registerB) registerB =
      { t.clock with
        rtcHour := UInt8.ofNat
          (if ¬ Is24Hour registerB ∧ t.hour % 12 = 0 then 12 - t.hour else t.hour) } := by
  have hrange := t.century_range
  have hbyte : (UInt8.ofNat t.century).toNat = t.century := by
    rw [UInt8.toNat_ofNat', Nat.mod_eq_of_lt (by omega)]
  have hcentury : UInt8.ofNat t.century ≠ 0 := by
    intro hzero
    rw [hzero] at hbyte
    exact absurd hrange.1 (by rw [← hbyte]; decide)
  have hyear : t.year + t.century * 100 = t.century * 100 + t.year := Nat.add_comm _ _
  rw [convert, decoded_registers]
  dsimp only
  rw [if_pos hcentury, hbyte, hyear]
  by_cases h24 : Is24Hour registerB
  · rw [if_neg (fun h => h24 h.1), if_neg (fun h => h.1 h24), decide_eq_true h24]
    rfl
  · have h12 : registerB &&& 0x02 = 0 := Classical.not_not.mp h24
    have hhour := hour_of_twelve t.hour t.hour_lt
    simp only [h12, h24, true_and, not_false_eq_true, decide_false] at hhour ⊢
    rw [hhour]
    rfl

theorem convert_registers_iff (t : CalendarTime) (registerB : UInt8) :
    convert (t.registers registerB) registerB = t.clock ↔
      Is24Hour registerB ∨ t.hour % 12 ≠ 0 := by
  have hhour := t.hour_lt
  rw [convert_registers]
  by_cases hmisread : ¬ Is24Hour registerB ∧ t.hour % 12 = 0
  · rw [if_pos hmisread]
    refine iff_of_false (fun heq => ?_) (fun h => h.elim hmisread.1 fun hne => hne hmisread.2)
    have hread : (UInt8.ofNat (12 - t.hour)).toNat = (UInt8.ofNat t.hour).toNat :=
      congrArg (fun c : Clock => c.rtcHour.toNat) heq
    rw [UInt8.toNat_ofNat', UInt8.toNat_ofNat'] at hread
    omega
  · rw [if_neg hmisread]
    refine iff_of_true rfl ?_
    by_cases h24 : Is24Hour registerB
    · exact .inl h24
    · exact .inr fun hzero => hmisread ⟨h24, hzero⟩

/-- The registers of the clock hold a time, in the format of register B. -/
structure Holds (cmos : Cmos) (t : CalendarTime) (registerB : UInt8) : Prop where
  steady : Steady cmos (t.registers registerB)
  format : ∀ n, cmos n 0x0B = registerB
  clears : Clears cmos

end Rtc

open Rtc in
/-- Whatever the clock answers, the values that `read_rtc` converts were read alike in two
successive passes. When its registers hold a time, `read_rtc` comes to an end with exactly that
time if and only if the format is a 24-hour one or the hour is neither 0 nor 12. -/
theorem read_rtc_exact_iff (cmos : Cmos) :
    (∀ (fuel : Nat) (clock : Clock), readRtc cmos fuel = some clock → ReadTwice cmos clock) ∧
    ∀ (t : CalendarTime) (registerB : UInt8), Holds cmos t registerB →
      ((∃ fuel, readRtc cmos fuel = some t.clock) ↔ Is24Hour registerB ∨ t.hour % 12 ≠ 0) := by
  refine ⟨fun fuel clock h => readRtc_readTwice h, fun t registerB hholds => ?_⟩
  rw [← convert_registers_iff]
  constructor
  · rintro ⟨fuel, h⟩
    exact (readRtc_steady hholds.steady hholds.format h).symm
  · intro hexact
    obtain ⟨fuel, clock, h⟩ := readRtc_ends hholds.clears hholds.steady
    have hclock := readRtc_steady hholds.steady hholds.format h
    exact ⟨fuel, by rw [h, hclock, hexact]⟩

/-- The last second of the first minute of an hour. -/
def sampleTime (hour : Fin 24) : Rtc.CalendarTime where
  century := 20
  year := 26
  month := 1
  day := 31
  hour := hour
  minute := 0
  second := 59
  century_range := by decide
  year_lt := by decide
  month_range := by decide
  day_range := by decide
  hour_lt := hour.isLt
  minute_lt := by decide
  second_lt := by decide

/-- A clock that stands at that time, in BCD and the twelve-hour format. -/
def sampleCmos (hour : Fin 24) : Cmos := fun _ register =>
  match register with
  | 0x00 => 0x59
  | 0x04 => Rtc.encodeHour false false hour
  | 0x07 => 0x31
  | 0x08 => 0x01
  | 0x09 => 0x26
  | 0x32 => 0x20
  | _ => 0

theorem sampleCmos_holds (hour : Fin 24) :
    Rtc.Holds (sampleCmos hour) (sampleTime hour) 0 where
  steady := fun n => by
    have hread : Rtc.readRegisters (sampleCmos hour) n =
        ⟨0x59, 0x00, Rtc.encodeHour false false hour, 0x31, 0x01, 0x26, 0x20⟩ := rfl
    rw [hread]
    clear hread
    revert hour
    decide
  format := fun _ => rfl
  clears := fun n => ⟨n, Nat.le_refl n, show (0 : UInt8) &&& 0x80 = 0 by decide⟩

theorem read_rtc_exact_sample : ∃ fuel,
    Rtc.readRtc (sampleCmos 13) fuel = some (sampleTime 13).clock :=
  ((read_rtc_exact_iff (sampleCmos 13)).2 (sampleTime 13) 0 (sampleCmos_holds 13)).mpr (by decide)

/-- Midnight is read as noon. -/
theorem midnight_misread :
    ¬ ∃ fuel, Rtc.readRtc (sampleCmos 0) fuel = some (sampleTime 0).clock := by
  rintro ⟨fuel, h⟩
  have hread := Rtc.readRtc_steady (sampleCmos_holds 0).steady (sampleCmos_holds 0).format h
  exact absurd hread (by decide)

end Newrex
