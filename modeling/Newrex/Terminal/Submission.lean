import Mathlib.Data.List.ModifyLast
import Newrex.Terminal.LineEditor

/-!
# Submitted command lines

The loop of `kernel_main` and the keyboard handler share the buffer, its length and
`command_ready`. The loop calls `execute_command` with the buffer itself, which the command
reads as often as it likes, and then cleans up in single stores; a key can be handled between
any two of these steps.

* `KeyEffect`: everything a key can do to the shared variables.
* `KeyOk`: the keys that do no harm: no Enter while a line is waiting or running, no editing
  in that time, and none into cells that the clean-up has still to clear.
* `run_submitted_lines`: with such keys, the executed lines are the submitted ones, and a
  command finds the same line at every read.
* `submitted_line_changed_and_lost`: runs with other keys.
-/

namespace Newrex

/-! ## The main loop -/

/-- Where the loop of `kernel_main` is. -/
inductive Phase
  /-- At the test of `command_ready`, or halted. -/
  | idle
  /-- In `execute_command`, before `add_to_history`. -/
  | called
  /-- In `execute_command`, behind it. -/
  | running
  /-- Before `command_length = 0`. -/
  | resetLength
  /-- Before the store to `command_buffer[i]`. -/
  | clearing (i : Nat)
  /-- Before `command_ready = 0`. -/
  | resetReady
deriving DecidableEq, Repr

/-- Whether a command is waiting for the loop or reading the buffer. -/
def Phase.needsLine : Phase → Bool
  | idle | called | running => true
  | resetLength | clearing _ | resetReady => false

/-- A call of `execute_command`: the string in the buffer at the call, and the string there at
each read after it, by `add_to_history`, by a comparison or by the command itself. -/
structure Execution where
  line : List UInt8
  reads : List (List UInt8)
deriving DecidableEq, Repr

/-- The shared variables, the place of the loop, the lines at each Enter and the calls of
`execute_command`. -/
structure MainLoop where
  term : Terminal
  phase : Phase
  submitted : List (List UInt8)
  executed : List Execution

/-- A key, or a step of the loop. In a command the step leaves some screen behind; it is the
last one of the command, or it reads the buffer. -/
inductive ShellStep
  | key (scancode : UInt8)
  | main (screen : Screen) (last : Bool)

namespace MainLoop

/-- The keyboard interrupt. -/
def key (s : MainLoop) (scancode : UInt8) : MainLoop :=
  { s with
    term := s.term.keyboardIsrHandler scancode
    submitted := if s.term.isEnter scancode then s.submitted ++ [s.term.line] else s.submitted }

/-- The command reads the buffer. -/
def read (s : MainLoop) : MainLoop :=
  { s with
    executed := s.executed.modifyLast fun call =>
      { call with reads := call.reads ++ [s.term.commandBuffer.chars] } }

/-- One step of the loop. Nothing of the buffer is copied at the call. -/
def main (s : MainLoop) (screen : Screen) (last : Bool) : MainLoop :=
  match s.phase with
  | .idle =>
    if s.term.commandReady then
      { s with phase := .called, executed := s.executed ++ [⟨s.term.commandBuffer.chars, []⟩] }
    else s
  | .called =>
    let term := { s.term with
      screen := screen
      history := s.term.history.addToHistory s.term.commandBuffer }
    { s.read with term := term, phase := .running }
  | .running =>
    let term := { s.term with screen := screen }
    if last then { s with term := term, phase := .resetLength } else { s.read with term := term }
  | .resetLength => { s with term := { s.term with commandLength := 0 }, phase := .clearing 0 }
  | .clearing i =>
    if i < 256 then
      { s with
        term := { s.term with commandBuffer := s.term.commandBuffer.set i 0 }
        phase := .clearing (i + 1) }
    else { s with phase := .resetReady }
  | .resetReady => { s with term := { s.term with commandReady := false }, phase := .idle }

/-- One step of either side. -/
def step (s : MainLoop) : ShellStep → MainLoop
  | .key scancode => s.key scancode
  | .main screen last => s.main screen last

/-- The line that waits to be executed. -/
def pending (s : MainLoop) : List (List UInt8) :=
  if s.phase = .idle ∧ s.term.commandReady then [s.term.line] else []

end MainLoop

/-! ## What a key does -/

namespace Terminal

/-- The key changes the line: a character that fits, a backspace on a line that is not
empty, or an arrow with a history. -/
def edits (t : Terminal) (scancode : UInt8) : Bool :=
  if t.e0Mode then (scancode = 0x48 || scancode = 0x50) && t.history.historyCount ≠ 0
  else
    (t.ascii scancode = 8 && 0 < t.commandLength) ||
      (t.ascii scancode ≠ 0 && t.ascii scancode ≠ 8 && t.ascii scancode ≠ 10 &&
        t.commandLength < 255)

/-- How many cells of the buffer the line needs after such a key. -/
def reach (t : Terminal) (scancode : UInt8) : Nat :=
  if t.e0Mode then (t.history.selected (if scancode = 0x48 then 1 else -1)).length
  else if t.ascii scancode = 8 then 0
  else t.commandLength + 1

end Terminal

/-- Everything a key can do to the shared variables. -/
inductive KeyEffect (t : Terminal) (scancode : UInt8) (t' : Terminal) : Prop
  | quiet : t.isEnter scancode = false → t'.commandBuffer = t.commandBuffer →
      t'.commandLength = t.commandLength → t'.commandReady = t.commandReady →
      t'.history = t.history → KeyEffect t scancode t'
  | enter : t.isEnter scancode = true → t'.commandBuffer = t.commandBuffer.set t.commandLength 0 →
      t'.commandLength = t.commandLength → t'.commandReady = true →
      t'.history = t.history → KeyEffect t scancode t'
  | typed : t.isEnter scancode = false → t.edits scancode = true →
      t.reach scancode = t.commandLength + 1 → t.commandLength < 255 →
      t.ascii scancode ≠ 0 → t.ascii scancode ≠ 8 → t.ascii scancode ≠ 10 →
      t'.commandBuffer = t.commandBuffer.set t.commandLength (t.ascii scancode) →
      t'.commandLength = t.commandLength + 1 → t'.commandReady = t.commandReady →
      t'.history = t.history → KeyEffect t scancode t'
  | erased : t.isEnter scancode = false → t.edits scancode = true → 0 < t.commandLength →
      t'.commandBuffer = t.commandBuffer.set (t.commandLength - 1) 0 →
      t'.commandLength = t.commandLength - 1 → t'.commandReady = t.commandReady →
      t'.history = t.history → KeyEffect t scancode t'
  | recalled (direction : Int) : t.isEnter scancode = false → t.edits scancode = true →
      t.reach scancode = (t.history.selected direction).length → t.history.historyCount ≠ 0 →
      t' = { t.loadHistory direction with e0Mode := false } → KeyEffect t scancode t'

namespace Terminal

variable (t : Terminal)

theorem isEnter_of_e0 (he : t.e0Mode = true) (scancode : UInt8) : t.isEnter scancode = false := by
  rw [isEnter, he]
  rfl

/-- Keys without a character. -/
theorem ascii_eq_zero {scancode : UInt8} (h : scancode = 0xE0 ∨ scancode = 0x2A ∨ scancode = 0x36 ∨
    58 ≤ scancode.toNat) : t.ascii scancode = 0 := by
  have hnormal : scancodeToAsciiNormal.length = 58 := rfl
  have hshift : scancodeToAsciiShift.length = 58 := rfl
  rw [ascii, layout]
  rcases h with rfl | rfl | rfl | hge
  · split <;> rfl
  · split <;> rfl
  · split <;> rfl
  · split
    · exact List.getD_eq_default _ _ (by omega)
    · exact List.getD_eq_default _ _ (by omega)

theorem isEnter_of_zero {scancode : UInt8} (h : t.ascii scancode = 0) :
    t.isEnter scancode = false := by
  rw [isEnter, h]
  exact Bool.and_false _

/-- A key with a character. -/
theorem handleAscii_effect (he : t.e0Mode = false) (scancode : UInt8) :
    KeyEffect t scancode (t.handleAscii (t.ascii scancode)) := by
  unfold handleAscii
  split
  · next h8 =>
    have hent : t.isEnter scancode = false := by rw [isEnter, h8]; exact Bool.and_false _
    split
    · next hpos =>
      refine .erased hent ?_ hpos rfl rfl rfl rfl
      simp [edits, he, h8, hpos]
    · exact .quiet hent rfl rfl rfl rfl
  · next h8 =>
    split
    · next h10 =>
      refine .enter ?_ rfl rfl rfl rfl
      simp [isEnter, he, h10]
    · next h10 =>
      have hent : t.isEnter scancode = false := by simp [isEnter, h10]
      split
      · next hchar =>
        refine .typed hent ?_ ?_ hchar.2 hchar.1 h8 h10 rfl rfl rfl rfl
        · simp [edits, he, h8, h10, hchar]
        · simp [reach, he, h8]
      · exact .quiet hent rfl rfl rfl rfl

/-- An arrow key. -/
theorem loadHistory_effect (he : t.e0Mode = true) {scancode : UInt8} {direction : Int}
    (hkey : scancode = 0x48 ∧ direction = 1 ∨ scancode = 0x50 ∧ direction = -1) :
    KeyEffect t scancode { t.loadHistory direction with e0Mode := false } := by
  have hent := t.isEnter_of_e0 he scancode
  by_cases h0 : t.history.historyCount = 0
  · rw [loadHistory, if_pos h0]
    exact .quiet hent rfl rfl rfl rfl
  · refine .recalled direction hent ?_ ?_ h0 rfl
    · rcases hkey with ⟨rfl, _⟩ | ⟨rfl, _⟩ <;> simp [edits, he, h0]
    · rcases hkey with ⟨rfl, rfl⟩ | ⟨rfl, rfl⟩ <;> simp [reach, he]

theorem keyboardIsrHandler_effect (scancode : UInt8) :
    KeyEffect t scancode (t.keyboardIsrHandler scancode) := by
  unfold keyboardIsrHandler
  split
  · next hsc =>
    exact .quiet (t.isEnter_of_zero (t.ascii_eq_zero (Or.inl hsc))) rfl rfl rfl rfl
  · split
    · next he =>
      dsimp only
      by_cases hup : scancode = 0x48
      · subst hup
        exact t.loadHistory_effect he (Or.inl ⟨rfl, rfl⟩)
      · rw [if_neg hup]
        by_cases hdown : scancode = 0x50
        · subst hdown
          exact t.loadHistory_effect he (Or.inr ⟨rfl, rfl⟩)
        · rw [if_neg hdown]
          exact .quiet (t.isEnter_of_e0 he _) rfl rfl rfl rfl
    · next he =>
      have he' : t.e0Mode = false := by simpa using he
      split
      · next hshift =>
        refine .quiet (t.isEnter_of_zero (t.ascii_eq_zero ?_)) rfl rfl rfl rfl
        exact hshift.elim (fun h => Or.inr (Or.inl h)) fun h => Or.inr (Or.inr (Or.inl h))
      · split
        · next hrelease =>
          refine .quiet (t.isEnter_of_zero (t.ascii_eq_zero ?_)) rfl rfl rfl rfl
          rcases hrelease with rfl | rfl <;> exact Or.inr (Or.inr (Or.inr (by decide)))
        · split
          · split
            · exact t.handleAscii_effect he' scancode
            · next hlen =>
              refine .quiet (t.isEnter_of_zero (t.ascii_eq_zero ?_)) rfl rfl rfl rfl
              have hnormal : scancodeToAsciiNormal.length = 58 := rfl
              exact Or.inr (Or.inr (Or.inr (by omega)))
          · next hhigh =>
            refine .quiet (t.isEnter_of_zero (t.ascii_eq_zero ?_)) rfl rfl rfl rfl
            refine Or.inr (Or.inr (Or.inr ?_))
            by_contra hlt
            have hbit : ∀ n, n < 58 → n &&& 128 = 0 := by decide
            refine hhigh (UInt8.toNat.inj ?_)
            rw [UInt8.toNat_and]
            exact hbit _ (by omega)

end Terminal

/-! ## Keys that do no harm -/

/-- The key comes at a harmless moment. -/
structure KeyOk (s : MainLoop) (scancode : UInt8) : Prop where
  noEnter : s.term.commandReady = true → s.term.isEnter scancode = false
  noEdit : s.phase.needsLine = true → s.term.commandReady = true →
    s.term.edits scancode = false
  cleared : ∀ i, s.phase = .clearing i → s.term.edits scancode = true → s.term.reach scancode ≤ i

namespace MainLoop

/-- The strings that `execute_command` was called with. -/
def executedLines (s : MainLoop) : List (List UInt8) := s.executed.map Execution.line

/-- Every command found at each read the line that it was called with. -/
def ReadsLine (s : MainLoop) : Prop :=
  ∀ call, call ∈ s.executed → ∀ line, line ∈ call.reads → line = call.line

end MainLoop

/-- What is waiting and what was executed, in each phase. -/
inductive PhaseInv (s : MainLoop) : Prop
  | editing : s.phase = .idle → s.term.commandReady = false →
      s.submitted = s.executedLines → PhaseInv s
  | waiting : s.phase = .idle → s.term.commandReady = true →
      s.term.commandBuffer.chars = s.term.line →
      s.submitted = s.executedLines ++ [s.term.line] → PhaseInv s
  | executing (calls : List Execution) (reads : List (List UInt8)) :
      s.phase = .called ∨ s.phase = .running → s.term.commandReady = true →
      s.term.commandBuffer.chars = s.term.line → s.executed = calls ++ [⟨s.term.line, reads⟩] →
      s.submitted = s.executedLines → PhaseInv s
  | cleaning : s.phase.needsLine = false → s.term.commandReady = true →
      (∀ i, s.phase = .clearing i → s.term.commandLength ≤ i) →
      s.submitted = s.executedLines → PhaseInv s

/-- The invariant of the loop: a line of typed characters, its phase, and commands that found
their line. -/
structure LoopInv (s : MainLoop) : Prop where
  length : s.term.commandLength ≤ 255
  typed : ∀ c, c ∈ s.term.line → c ≠ 0 ∧ c ≠ 8 ∧ c ≠ 10
  history : s.term.history.WellFormed
  phase : PhaseInv s
  reads : s.ReadsLine

/-- A terminated line is the string that the buffer holds. -/
theorem Row.chars_of_take (row : Row) {n : Nat} (hn : n < 256) (h0 : row ⟨n, hn⟩ = 0)
    (h : ∀ c, c ∈ (List.ofFn row).take n → c ≠ 0) : row.chars = (List.ofFn row).take n := by
  have hdrop : (List.ofFn row).drop n = 0 :: (List.ofFn row).drop (n + 1) := by
    rw [List.drop_eq_getElem_cons (by rw [List.length_ofFn]; exact hn), List.getElem_ofFn, h0]
  have hsplit : List.ofFn row = (List.ofFn row).take n ++ 0 :: (List.ofFn row).drop (n + 1) := by
    rw [← hdrop, List.take_append_drop]
  rw [Row.chars]
  nth_rewrite 1 [hsplit]
  exact takeWhile_terminated h

/-- The line after a key. -/
theorem KeyEffect.lineInv {t t' : Terminal} {scancode : UInt8} (he : KeyEffect t scancode t')
    (hlen : t.commandLength ≤ 255) (htyped : ∀ c, c ∈ t.line → c ≠ 0 ∧ c ≠ 8 ∧ c ≠ 10)
    (hw : t.history.WellFormed) :
    t'.commandLength ≤ 255 ∧ (∀ c, c ∈ t'.line → c ≠ 0 ∧ c ≠ 8 ∧ c ≠ 10) ∧
      t'.history.WellFormed := by
  cases he with
  | quiet _ hb hl _ hh =>
    rw [Terminal.line, hb, hl, hh]
    exact ⟨hlen, htyped, hw⟩
  | enter _ hb hl _ hh =>
    rw [Terminal.line, hb, hl, hh, Row.set_take_of_le _ (Nat.le_refl _)]
    exact ⟨hlen, htyped, hw⟩
  | typed _ _ _ hlt h0 h8 h10 hb hl _ hh =>
    rw [Terminal.line, hb, hl, hh, Row.set_take _ (by omega)]
    refine ⟨by omega, fun c hc => ?_, hw⟩
    rcases List.mem_append.mp hc with hold | hnew
    · exact htyped c hold
    · rw [List.mem_singleton.mp hnew]
      exact ⟨h0, h8, h10⟩
  | erased _ _ hpos hb hl _ hh =>
    rw [Terminal.line, hb, hl, hh, Row.set_take_of_le _ (Nat.le_refl _)]
    refine ⟨by omega, fun c hc => htyped c ?_, hw⟩
    exact (List.take_subset_take_left _ (by omega)) hc
  | recalled direction _ _ _ h0 ht =>
    obtain ⟨hlow, hhigh⟩ := t.history.moved_range direction
    obtain ⟨hsel, hchars⟩ := hw.selected direction
    obtain ⟨hline, hl, hh, _⟩ := loadHistory_line hw direction h0
    rw [ht]
    refine ⟨?_, fun c hc => hchars c ?_, ?_⟩
    · show (t.loadHistory direction).commandLength ≤ 255
      omega
    · change c ∈ (t.loadHistory direction).line at hc
      rwa [hline] at hc
    · show (t.loadHistory direction).history.WellFormed
      rw [hh]
      exact ⟨hw.count, hw.lines, hlow, hhigh⟩

theorem KeyEffect.entered {t t' : Terminal} {scancode : UInt8} (he : KeyEffect t scancode t')
    (hent : t.isEnter scancode = true) :
    t'.commandBuffer = t.commandBuffer.set t.commandLength 0 ∧
      t'.commandLength = t.commandLength ∧ t'.commandReady = true := by
  cases he with
  | enter _ hb hl hr _ => exact ⟨hb, hl, hr⟩
  | quiet hent' | typed hent' | erased hent' | recalled _ hent' =>
    rw [hent] at hent'
    cases hent'

/-- Keys other than Enter keep `command_ready`. -/
theorem KeyEffect.ready {t t' : Terminal} {scancode : UInt8} (he : KeyEffect t scancode t')
    (hw : t.history.WellFormed) (hent : t.isEnter scancode = false) :
    t'.commandReady = t.commandReady := by
  cases he with
  | quiet _ _ _ hr _ => exact hr
  | enter hent' => rw [hent] at hent'; cases hent'
  | typed _ _ _ _ _ _ _ _ _ hr _ => exact hr
  | erased _ _ _ _ _ hr _ => exact hr
  | recalled direction _ _ _ h0 ht =>
    rw [ht]
    exact (loadHistory_line hw direction h0).2.2.2

/-- A key that stays within the cleared cells. -/
theorem KeyEffect.length_le {t t' : Terminal} {scancode : UInt8} (he : KeyEffect t scancode t')
    (hw : t.history.WellFormed) (hent : t.isEnter scancode = false) {i : Nat}
    (hle : t.commandLength ≤ i) (hreach : t.edits scancode = true → t.reach scancode ≤ i) :
    t'.commandLength ≤ i := by
  cases he with
  | quiet _ _ hl _ _ => rw [hl]; exact hle
  | enter hent' => rw [hent] at hent'; cases hent'
  | typed _ hedit heq _ _ _ _ _ hl _ _ =>
    have := hreach hedit
    omega
  | erased _ _ _ _ hl _ _ => omega
  | recalled direction _ hedit heq h0 ht =>
    have hr := hreach hedit
    have hl := (loadHistory_line hw direction h0).2.1
    rw [ht]
    show (t.loadHistory direction).commandLength ≤ i
    omega

/-- A key that edits nothing leaves the line. -/
theorem KeyEffect.keeps {t t' : Terminal} {scancode : UInt8} (he : KeyEffect t scancode t')
    (hent : t.isEnter scancode = false) (hedit : t.edits scancode = false) :
    t'.commandBuffer = t.commandBuffer ∧ t'.line = t.line := by
  cases he with
  | quiet _ hb hl _ _ => exact ⟨hb, by rw [Terminal.line, hb, hl]; rfl⟩
  | enter hent' => rw [hent] at hent'; cases hent'
  | typed _ hedit' => rw [hedit] at hedit'; cases hedit'
  | erased _ hedit' => rw [hedit] at hedit'; cases hedit'
  | recalled _ _ hedit' => rw [hedit] at hedit'; cases hedit'

theorem key_inv {s : MainLoop} (h : LoopInv s) {scancode : UInt8} (hok : KeyOk s scancode) :
    LoopInv (s.key scancode) := by
  have he := s.term.keyboardIsrHandler_effect scancode
  obtain ⟨hlen, htyped, hw⟩ := he.lineInv h.length h.typed h.history
  refine ⟨hlen, htyped, hw, ?_, h.reads⟩
  have hsub : s.term.isEnter scancode = false → (s.key scancode).submitted = s.submitted := by
    intro hent
    rw [MainLoop.key, hent]
    rfl
  cases h.phase with
  | editing hph hready heq =>
    by_cases hent : s.term.isEnter scancode = true
    · -- Enter: the line is terminated and waits
      obtain ⟨hb, hl, hr⟩ := he.entered hent
      have hn : s.term.commandLength < 256 := by have := h.length; omega
      have hline : (s.term.keyboardIsrHandler scancode).line = s.term.line := by
        rw [Terminal.line, hb, hl]
        exact Row.set_take_of_le _ (Nat.le_refl _)
      refine .waiting hph hr ?_ ?_
      · show (s.term.keyboardIsrHandler scancode).commandBuffer.chars =
          (s.term.keyboardIsrHandler scancode).line
        rw [Terminal.line, hb, hl]
        refine Row.chars_of_take _ hn (if_pos rfl) fun c hc => ?_
        rw [Row.set_take_of_le _ (Nat.le_refl _)] at hc
        exact (h.typed c hc).1
      · show (s.key scancode).submitted =
          s.executedLines ++ [(s.term.keyboardIsrHandler scancode).line]
        rw [hline, MainLoop.key, hent, heq]
        rfl
    · have hent' : s.term.isEnter scancode = false := by simpa using hent
      refine .editing hph ?_ ((hsub hent').trans heq)
      exact (he.ready h.history hent').trans hready
  | waiting hph hready hchars heq =>
    have hent := hok.noEnter hready
    obtain ⟨hb, hline⟩ := he.keeps hent (hok.noEdit (by rw [hph]; rfl) hready)
    refine .waiting hph ((he.ready h.history hent).trans hready) ?_ ?_
    · show (s.term.keyboardIsrHandler scancode).commandBuffer.chars = _
      rw [hb, hchars]
      exact hline.symm
    · show (s.key scancode).submitted =
        s.executedLines ++ [(s.term.keyboardIsrHandler scancode).line]
      rw [hsub hent, hline]
      exact heq
  | executing calls reads hph hready hchars hcalls heq =>
    have hneeds : s.phase.needsLine = true := by rcases hph with hph | hph <;> rw [hph] <;> rfl
    have hent := hok.noEnter hready
    obtain ⟨hb, hline⟩ := he.keeps hent (hok.noEdit hneeds hready)
    refine .executing calls reads hph ((he.ready h.history hent).trans hready) ?_ ?_
      ((hsub hent).trans heq)
    · show (s.term.keyboardIsrHandler scancode).commandBuffer.chars = _
      rw [hb, hchars]
      exact hline.symm
    · show s.executed = calls ++ [⟨(s.term.keyboardIsrHandler scancode).line, reads⟩]
      rw [hline]
      exact hcalls
  | cleaning hph hready hcell heq =>
    have hent := hok.noEnter hready
    refine .cleaning hph ((he.ready h.history hent).trans hready) ?_ ((hsub hent).trans heq)
    intro i hi
    exact he.length_le h.history hent (hcell i hi) (hok.cleared i hi)

/-- A read in a call whose line stands in the buffer. -/
theorem MainLoop.read_executed {s : MainLoop} {calls : List Execution} {reads : List (List UInt8)}
    (hchars : s.term.commandBuffer.chars = s.term.line)
    (hcalls : s.executed = calls ++ [⟨s.term.line, reads⟩]) :
    s.read.executed = calls ++ [⟨s.term.line, reads ++ [s.term.line]⟩] := by
  show s.executed.modifyLast _ = _
  rw [hcalls, List.modifyLast_concat, hchars]

/-- It finds the line, so that every command still has. -/
theorem MainLoop.read_inv {s : MainLoop} (h : LoopInv s) {calls : List Execution}
    {reads : List (List UInt8)} (hchars : s.term.commandBuffer.chars = s.term.line)
    (hcalls : s.executed = calls ++ [⟨s.term.line, reads⟩]) :
    s.read.executedLines = s.executedLines ∧ s.read.ReadsLine := by
  have hread := read_executed hchars hcalls
  have hold := h.reads
  rw [ReadsLine, hcalls, List.forall_mem_append, List.forall_mem_singleton] at hold
  constructor
  · rw [executedLines, executedLines, hread, hcalls, List.map_append, List.map_append]
    rfl
  · rw [ReadsLine, hread, List.forall_mem_append, List.forall_mem_singleton]
    refine ⟨hold.1, fun line hline => ?_⟩
    rcases List.mem_append.mp hline with hmem | hmem
    · exact hold.2 line hmem
    · exact List.mem_singleton.mp hmem

theorem main_inv {s : MainLoop} (h : LoopInv s) (screen : Screen) (last : Bool) :
    LoopInv (s.main screen last) := by
  unfold MainLoop.main
  cases h.phase with
  | editing hph hready heq =>
    rw [hph]
    dsimp only
    rw [if_neg (by rw [hready]; exact Bool.false_ne_true)]
    exact h
  | waiting hph hready hchars heq =>
    rw [hph]
    dsimp only
    rw [if_pos hready, hchars]
    refine ⟨h.length, h.typed, h.history,
      PhaseInv.executing s.executed [] (Or.inl rfl) hready hchars rfl ?_, ?_⟩
    · show s.submitted = (s.executed ++ [Execution.mk s.term.line []]).map Execution.line
      rw [heq, List.map_append]
      rfl
    · rw [MainLoop.ReadsLine, List.forall_mem_append, List.forall_mem_singleton]
      exact ⟨h.reads, fun line hline => absurd hline List.not_mem_nil⟩
  | executing calls reads hph hready hchars hcalls heq =>
    obtain ⟨hlines, hreads⟩ := MainLoop.read_inv h hchars hcalls
    have hread := MainLoop.read_executed hchars hcalls
    rcases hph with hph | hph
    · -- `add_to_history` copies the line
      rw [hph]
      have hline : s.term.commandBuffer.IsLine := by
        rw [Row.IsLine, hchars, Terminal.line_length h.length]
        exact ⟨h.length, fun c hc => (h.typed c hc).2⟩
      exact ⟨h.length, h.typed, h.history.addToHistory hline,
        .executing calls _ (.inr rfl) hready hchars hread (heq.trans hlines.symm), hreads⟩
    · rw [hph]
      dsimp only
      split
      · refine ⟨h.length, h.typed, h.history, .cleaning rfl hready (fun i hi => ?_) heq, h.reads⟩
        cases hi
      · exact ⟨h.length, h.typed, h.history,
          .executing calls _ (.inr hph) hready hchars hread (heq.trans hlines.symm), hreads⟩
  | cleaning hph hready hcell heq =>
    split
    · next hidle => rw [hidle] at hph; cases hph
    · next hcalled => rw [hcalled] at hph; cases hph
    · next hrunning => rw [hrunning] at hph; cases hph
    · refine ⟨Nat.zero_le _, fun c hc => ?_, h.history, .cleaning rfl hready ?_ heq, h.reads⟩
      · exact absurd hc List.not_mem_nil
      · intro i hi
        cases hi
        exact Nat.le_refl _
    · next i hi =>
      have hle := hcell i hi
      split
      · -- a cell behind the line
        have hsame : (List.ofFn (s.term.commandBuffer.set i 0)).take s.term.commandLength =
            s.term.line := Row.set_take_of_le _ hle
        refine ⟨h.length, fun c hc => h.typed c ?_, h.history, .cleaning rfl hready ?_ heq,
          h.reads⟩
        · rw [← hsame]
          exact hc
        · intro j hj
          cases hj
          show s.term.commandLength ≤ i + 1
          omega
      · refine ⟨h.length, h.typed, h.history, .cleaning rfl hready ?_ heq, h.reads⟩
        intro j hj
        cases hj
    · exact ⟨h.length, h.typed, h.history, .editing rfl rfl heq, h.reads⟩

/-! ## Runs -/

/-- The kernel enters its loop: no line and nothing submitted. -/
def MainLoop.Started (s : MainLoop) : Prop :=
  s.phase = .idle ∧ s.term.commandReady = false ∧ s.term.commandLength = 0 ∧
    s.term.history.WellFormed ∧ s.submitted = [] ∧ s.executed = []

/-- All interleavings of the loop with keys that come at harmless moments. -/
def submissionRuns : TransitionSystem MainLoop ShellStep where
  init := MainLoop.Started
  allowed := fun s a => ∀ scancode, a = .key scancode → KeyOk s scancode
  step := MainLoop.step

theorem reachable_loopInv {s : MainLoop} (h : submissionRuns.Reachable s) : LoopInv s := by
  refine h.invariant ?_ ?_
  · rintro s ⟨hph, hready, hlen, hw, hsub, hexe⟩
    have hnil : s.term.line = [] := by rw [Terminal.line, hlen, List.take_zero]
    refine ⟨by omega, ?_, hw, .editing hph hready ?_, ?_⟩
    · rw [hnil]
      exact fun c hc => absurd hc List.not_mem_nil
    · rw [hsub, MainLoop.executedLines, hexe, List.map_nil]
    · rw [MainLoop.ReadsLine, hexe]
      exact fun call hcall => absurd hcall List.not_mem_nil
  · intro s a _ hinv hok
    cases a with
    | key scancode => exact key_inv hinv (hok scancode rfl)
    | main screen last => exact main_inv hinv screen last

/-- Submitted lines are neither changed nor lost, as long as keys come at harmless moments: the
executed strings and the line that waits are the lines at each Enter, a command finds its string
at every read of the buffer, and the loop executes what waits in its next step. -/
theorem run_submitted_lines {s : MainLoop} (h : submissionRuns.Reachable s) :
    s.executedLines ++ s.pending = s.submitted ∧ s.ReadsLine ∧
      (s.phase = .idle → ∀ screen last, (s.main screen last).executedLines = s.submitted) := by
  have hinv := reachable_loopInv h
  unfold MainLoop.pending
  cases hinv.phase with
  | editing hph hready heq =>
    refine ⟨?_, hinv.reads, fun _ screen last => ?_⟩
    · rw [hph, hready]
      simp [heq]
    · unfold MainLoop.main
      rw [hph, hready]
      exact heq.symm
  | waiting hph hready hchars heq =>
    refine ⟨?_, hinv.reads, fun _ screen last => ?_⟩
    · rw [hph, hready]
      simp [heq]
    · unfold MainLoop.main
      rw [hph, hready]
      simp [heq, hchars, MainLoop.executedLines]
  | executing calls reads hph hready hchars hcalls heq =>
    have hne : s.phase ≠ .idle := by
      rcases hph with hph | hph <;> rw [hph] <;> exact Phase.noConfusion
    refine ⟨?_, hinv.reads, fun hidle => absurd hidle hne⟩
    rw [if_neg (fun h => hne h.1), List.append_nil, heq]
  | cleaning hph hready _ heq =>
    have hne : s.phase ≠ .idle := fun hidle => by rw [hidle] at hph; cases hph
    refine ⟨?_, hinv.reads, fun hidle => absurd hidle hne⟩
    rw [if_neg (fun h => hne h.1), List.append_nil, heq]

/-- Every key is harmless while a line is edited. -/
theorem KeyOk.of_editing {s : MainLoop} (hph : s.phase = .idle)
    (hready : s.term.commandReady = false) (scancode : UInt8) : KeyOk s scancode where
  noEnter := fun h => by rw [hready] at h; cases h
  noEdit := fun _ h => by rw [hready] at h; cases h
  cleared := fun i hi => by rw [hph] at hi; cases hi

theorem submissionRuns_key {s : MainLoop} (h : submissionRuns.Reachable s)
    {scancode : UInt8} (hok : KeyOk s scancode) : submissionRuns.Reachable (s.key scancode) := by
  have hallowed : submissionRuns.allowed s (.key scancode) := by
    intro sc hsc
    cases hsc
    exact hok
  exact h.step hallowed

/-- The loop with an empty history. -/
def sampleLoop : MainLoop := ⟨samplePrompt .empty, .idle, [], []⟩

/-- A blank screen. -/
def sampleScreen : Screen := ⟨fun _ => 32, 0, 0⟩

/-- Type a character, press Enter and let the loop start the command. -/
theorem run_submitted_lines_sample :
    (((sampleLoop.key 0x1E).key 0x1C).main sampleScreen false).executedLines = [[97]] := by
  have hinit : submissionRuns.Reachable sampleLoop :=
    .init ⟨rfl, rfl, rfl, History.empty_wellFormed, rfl, rfl⟩
  have hkey : submissionRuns.Reachable (sampleLoop.key 0x1E) :=
    submissionRuns_key hinit (.of_editing rfl rfl 0x1E)
  have henter : submissionRuns.Reachable ((sampleLoop.key 0x1E).key 0x1C) :=
    submissionRuns_key hkey (.of_editing rfl (by decide +kernel) 0x1C)
  rw [(run_submitted_lines henter).2.2 rfl]
  decide +kernel

/-- The main loop alone, from the last step of a command back to the test of
`command_ready`. -/
def finishCommand (s : MainLoop) : MainLoop :=
  (List.range 260).foldl (fun s _ => s.main sampleScreen true) s

/-- A key after Enter changes the line that waits: `a`, Enter, `b` executes `ab`. A key after
the call changes what the command reads: called with `a`, it finds `ab`. A line finished while a
command runs is lost: with `a`, Enter, and `b`, Enter while `a` runs, the loop is back at its
test with nothing waiting and `a` executed alone. -/
theorem submitted_line_changed_and_lost :
    ((((sampleLoop.key 0x1E).key 0x1C).key 0x30).main sampleScreen false).submitted = [[97]] ∧
      ((((sampleLoop.key 0x1E).key 0x1C).key 0x30).main sampleScreen false).executedLines =
        [[97, 98]] ∧
      (((((sampleLoop.key 0x1E).key 0x1C).main sampleScreen false).key 0x30).main sampleScreen
        false).executed = [⟨[97], [[97, 98]]⟩] ∧
      ∃ s, s = finishCommand
          ((((((sampleLoop.key 0x1E).key 0x1C).main sampleScreen false).main sampleScreen false).key
            0x30).key 0x1C) ∧
        s.phase = .idle ∧ s.term.commandReady = false ∧ s.submitted = [[97], [97, 98]] ∧
        s.executedLines = [[97]] := by
  refine ⟨by decide +kernel, by decide +kernel, by decide +kernel, _, rfl, by decide +kernel,
    by decide +kernel, by decide +kernel, by decide +kernel⟩

end Newrex
