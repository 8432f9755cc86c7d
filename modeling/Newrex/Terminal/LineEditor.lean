import Mathlib.Data.List.Induction
import Newrex.Lib.Transition
import Newrex.Terminal.Basic

/-!
# The line editor and the screen

From a fresh prompt on, the characters behind `prompt_min_offset` are the line in
`command_buffer`, and the cursor is behind them.

* `Shows scr chars`: the screen shows `chars` behind the prompt. A line has at most 255
  characters, so that the prompt is always in the lower rows when the screen scrolls and
  its offset never reaches 0.
* `run_line_editor`: the relation survives all keys but Enter, and Up and Down replace the
  line by the selected history entry; with an empty history they do nothing.
-/

namespace Newrex

/-! ## What the screen shows -/

/-- The characters `chars` behind the prompt, and the cursor behind them. -/
structure Shows (scr : Screen) (chars : List UInt8) : Prop where
  cursor : scr.cursorOffset = scr.promptMinOffset + 2 * chars.length
  even : scr.cursorOffset % 2 = 0
  range : scr.cursorOffset < 4000
  cells : ∀ j, j < chars.length → scr.videoMemory (scr.promptMinOffset + 2 * j) = chars.getD j 0

namespace Shows

variable {scr : Screen} {chars : List UInt8} {c : UInt8}

theorem putCell_of_lt (off : Nat) (attr : UInt8) {i : Nat} (h : i < off) :
    scr.putCell off c attr i = scr.videoMemory i := by
  rw [Screen.putCell, Function.update_of_ne (by omega), Function.update_of_ne (by omega)]

theorem putCell_self (off : Nat) (attr : UInt8) : scr.putCell off c attr off = c := by
  rw [Screen.putCell, Function.update_of_ne (by omega), Function.update_self]

/-- A printed character is added to the text, also when the screen scrolls. -/
theorem printChar (h : Shows scr chars) (hlen : chars.length < 255) (h8 : c ≠ 8) (h10 : c ≠ 10) :
    Shows (scr.printChar c) (chars ++ [c]) := by
  obtain ⟨hcur, heven, hrange, hcells⟩ := h
  have hcell : ∀ j, j < (chars ++ [c]).length →
      scr.putCell scr.cursorOffset c colorWhite (scr.promptMinOffset + 2 * j) =
        (chars ++ [c]).getD j 0 := by
    intro j hj
    rw [List.length_append, List.length_singleton] at hj
    by_cases hlast : j < chars.length
    · rw [putCell_of_lt _ _ (by omega), hcells j hlast, List.getD_append _ _ _ _ hlast]
    · have heq : j = chars.length := by omega
      subst heq
      rw [← hcur, putCell_self, List.getD_append_right _ _ _ _ (Nat.le_refl _), Nat.sub_self]
      rfl
  rw [Screen.printChar, Screen.printCharColor, if_neg h10, if_neg h8, if_pos hrange]
  unfold Screen.checkScroll
  dsimp only
  split
  · -- the last cell of the screen: every row moves up, and the prompt with it
    next hscroll =>
    refine ⟨?_, by dsimp only, by dsimp only; omega, ?_⟩
    · rw [List.length_append, List.length_singleton]
      dsimp only
      omega
    · intro j hj
      have hj' := hj
      rw [List.length_append, List.length_singleton] at hj'
      have hoff : scr.promptMinOffset - 160 + 2 * j + 160 = scr.promptMinOffset + 2 * j := by omega
      dsimp only
      rw [scrollUp, if_pos (by omega), hoff]
      exact hcell j hj
  · next hstay =>
    refine ⟨?_, by dsimp only; omega, by dsimp only; omega, hcell⟩
    rw [List.length_append, List.length_singleton]
    dsimp only
    omega

/-- A backspace takes the last character away. -/
theorem backspace (h : Shows scr (chars ++ [c])) : Shows (scr.printChar 8) chars := by
  obtain ⟨hcur, heven, hrange, hcells⟩ := h
  rw [List.length_append, List.length_singleton] at hcur
  have hpos : scr.promptMinOffset < scr.cursorOffset := by omega
  rw [Screen.printChar, Screen.printCharColor, if_neg (by decide), if_pos rfl, if_pos hpos]
  refine ⟨by dsimp only; omega, by dsimp only; omega, by dsimp only; omega, ?_⟩
  intro j hj
  have hold := hcells j (by rw [List.length_append, List.length_singleton]; omega)
  rw [List.getD_append _ _ _ _ hj] at hold
  dsimp only
  rw [putCell_of_lt _ _ (by omega)]
  exact hold

/-- The erasing loop of `load_history`, by induction on the length of the line. -/
theorem eraseLine (h : Shows scr chars) : Shows (Newrex.eraseLine chars.length scr) [] := by
  induction chars using List.reverseRecOn generalizing scr with
  | nil => exact h
  | append_singleton chars c ih =>
    rw [List.length_append, List.length_singleton]
    exact ih h.backspace

end Shows

/-! ## Rows -/

namespace Row

variable (row : Row) {i : Nat} {c : UInt8}

theorem set_take (hi : i < 256) :
    (List.ofFn (row.set i c)).take (i + 1) = (List.ofFn row).take i ++ [c] := by
  have hlen : ((List.ofFn (row.set i c)).take (i + 1)).length =
      ((List.ofFn row).take i ++ [c]).length := by
    rw [List.length_append, List.length_take, List.length_take, List.length_ofFn, List.length_ofFn,
      List.length_singleton]
    omega
  refine List.ext_getElem hlen fun j h1 h2 => ?_
  rw [List.length_take, List.length_ofFn] at h1
  rw [List.getElem_take, List.getElem_ofFn, List.getElem_append]
  split
  · next hj =>
    rw [List.length_take, List.length_ofFn] at hj
    have hne : j ≠ i := by omega
    rw [List.getElem_take, List.getElem_ofFn]
    exact if_neg hne
  · next hj =>
    rw [List.length_take, List.length_ofFn] at hj
    have heq : j = i := by omega
    subst heq
    rw [List.getElem_singleton]
    exact if_pos rfl

/-- Setting a character behind the first `n` leaves them alone. -/
theorem set_take_of_le {n : Nat} (h : n ≤ i) :
    (List.ofFn (row.set i c)).take n = (List.ofFn row).take n := by
  have hlen : ((List.ofFn (row.set i c)).take n).length = ((List.ofFn row).take n).length := by
    rw [List.length_take, List.length_take, List.length_ofFn, List.length_ofFn]
  refine List.ext_getElem hlen fun j h1 h2 => ?_
  rw [List.length_take, List.length_ofFn] at h1
  have hne : j ≠ i := by omega
  rw [List.getElem_take, List.getElem_ofFn, List.getElem_take, List.getElem_ofFn]
  exact if_neg hne

end Row

/-! ## The editor -/

/-- A row that holds a typed line: NUL-terminated, without backspace and newline. -/
def Row.IsLine (row : Row) : Prop :=
  row.chars.length ≤ 255 ∧ ∀ c, c ∈ row.chars → c ≠ 8 ∧ c ≠ 10

/-- A history that `add_to_history` built from typed lines. -/
structure History.WellFormed (h : History) : Prop where
  count : h.historyCount ≤ 10
  lines : ∀ i, i < h.historyCount → (h.cmdHistory i).IsLine
  low : -1 ≤ h.historyPos
  high : h.historyPos < h.historyCount

theorem History.empty_wellFormed : History.empty.WellFormed :=
  ⟨by decide, fun i hi => absurd hi (Nat.not_lt_zero i), by decide, by decide⟩

theorem History.WellFormed.addToHistory {h : History} (hw : h.WellFormed) {cmd : Row}
    (hcmd : cmd.IsLine) : (h.addToHistory cmd).WellFormed := by
  unfold History.addToHistory
  split
  · exact hw
  · have hcount := hw.count
    refine ⟨by dsimp only; split <;> omega, ?_, by dsimp only; omega, ?_⟩
    · intro i hi
      dsimp only at hi ⊢
      split
      · exact hcmd
      · have hlt : i < 10 ∧ i - 1 < h.historyCount := by split at hi <;> omega
        rw [if_pos hlt.1]
        exact hw.lines _ hlt.2
    · dsimp only
      split <;> omega

theorem History.moved_range (h : History) (direction : Int) :
    -1 ≤ h.moved direction ∧ h.moved direction < h.historyCount := by
  unfold History.moved
  dsimp only
  split
  · split <;> omega
  · split <;> omega

/-- The invariant of the editor: the screen shows the line. -/
structure Editing (t : Terminal) : Prop where
  length : t.commandLength ≤ 255
  shows : Shows t.screen t.line
  history : t.history.WellFormed

theorem Terminal.line_length {t : Terminal} (h : t.commandLength ≤ 255) :
    t.line.length = t.commandLength := by
  rw [Terminal.line, List.length_take, List.length_ofFn]
  omega

/-- The buffer after the loop that copies a history entry, with `done` copied so far. -/
theorem loadChars_line {t : Terminal} (cs : List UInt8) (i : Nat) (done : List UInt8)
    (hdone : (List.ofFn t.commandBuffer).take i = done) (hlen : i + cs.length ≤ 255) :
    (t.loadChars cs i).line = done ++ cs ∧ (t.loadChars cs i).commandLength = i + cs.length ∧
      (t.loadChars cs i).history = t.history ∧
      (t.loadChars cs i).commandReady = t.commandReady := by
  induction cs generalizing t i done with
  | nil =>
    rw [List.append_nil, ← hdone]
    exact ⟨t.commandBuffer.set_take_of_le (Nat.le_refl i), rfl, rfl, rfl⟩
  | cons c cs ih =>
    rw [List.length_cons] at hlen
    have hset : (List.ofFn (t.commandBuffer.set i c)).take (i + 1) = done ++ [c] := by
      rw [Row.set_take _ (by omega), hdone]
    obtain ⟨hline, hl, hh, hr⟩ := @ih { t with
      commandBuffer := t.commandBuffer.set i c
      screen := t.screen.printChar c } (i + 1) (done ++ [c]) hset (by omega)
    rw [List.append_assoc, List.singleton_append] at hline
    refine ⟨hline, ?_, hh, hr⟩
    rw [Terminal.loadChars, hl, List.length_cons]
    omega

/-- The screen after that loop. -/
theorem loadChars_shows {t : Terminal} (cs : List UInt8) (i : Nat) (done : List UInt8)
    (hlen : done.length + cs.length ≤ 255) (hcs : ∀ c, c ∈ cs → c ≠ 8 ∧ c ≠ 10)
    (h : Shows t.screen done) : Shows (t.loadChars cs i).screen (done ++ cs) := by
  induction cs generalizing t i done with
  | nil =>
    rw [List.append_nil]
    exact h
  | cons c cs ih =>
    rw [List.length_cons] at hlen
    obtain ⟨h8, h10⟩ := hcs c List.mem_cons_self
    have hshow := @ih { t with
      commandBuffer := t.commandBuffer.set i c
      screen := t.screen.printChar c } (i + 1) (done ++ [c])
      (by rw [List.length_append, List.length_singleton]; omega)
      (fun d hd => hcs d (List.mem_cons_of_mem _ hd)) (h.printChar (by omega) h8 h10)
    rw [List.append_assoc, List.singleton_append] at hshow
    exact hshow

/-- The line that Up or Down selects. -/
def History.selected (h : History) (direction : Int) : List UInt8 :=
  if h.moved direction = -1 then [] else (h.cmdHistory (h.moved direction).toNat).chars

theorem History.WellFormed.selected {h : History} (hw : h.WellFormed) (direction : Int) :
    (h.selected direction).length ≤ 255 ∧
      ∀ c, c ∈ h.selected direction → c ≠ 0 ∧ c ≠ 8 ∧ c ≠ 10 := by
  obtain ⟨hlow, hhigh⟩ := h.moved_range direction
  unfold History.selected
  split
  · exact ⟨Nat.zero_le _, fun c hc => absurd hc List.not_mem_nil⟩
  · next hpos =>
    obtain ⟨hlen, hchars⟩ := hw.lines (h.moved direction).toNat (by omega)
    refine ⟨hlen, fun c hc => ⟨?_, hchars c hc⟩⟩
    simpa using List.mem_takeWhile_imp hc

/-- `load_history` replaces the line by the selected entry, whatever the screen shows. -/
theorem loadHistory_line {t : Terminal} (hw : t.history.WellFormed) (direction : Int)
    (h0 : t.history.historyCount ≠ 0) :
    (t.loadHistory direction).line = t.history.selected direction ∧
      (t.loadHistory direction).commandLength = (t.history.selected direction).length ∧
      (t.loadHistory direction).history =
        { t.history with historyPos := t.history.moved direction } ∧
      (t.loadHistory direction).commandReady = t.commandReady := by
  have hlen := (hw.selected direction).1
  rw [Terminal.loadHistory, if_neg h0]
  rw [History.selected] at hlen ⊢
  dsimp only
  split
  · exact ⟨rfl, rfl, rfl, rfl⟩
  · next hpos =>
    rw [if_neg hpos] at hlen
    obtain ⟨hline, hl, hh, hr⟩ := @loadChars_line
      { t with
        history := { t.history with historyPos := t.history.moved direction }
        screen := eraseLine t.commandLength t.screen
        commandLength := 0 }
      (t.history.cmdHistory (t.history.moved direction).toNat).chars 0 [] rfl (by omega)
    rw [List.nil_append] at hline
    rw [Nat.zero_add] at hl
    exact ⟨hline, hl, hh, hr⟩

/-- The screen follows. -/
theorem loadHistory_spec {t : Terminal} (h : Editing t) (direction : Int)
    (h0 : t.history.historyCount ≠ 0) :
    Editing (t.loadHistory direction) ∧
      (t.loadHistory direction).line = t.history.selected direction := by
  obtain ⟨hlow, hhigh⟩ := t.history.moved_range direction
  obtain ⟨hlen, hchars⟩ := h.history.selected direction
  obtain ⟨hline, hl, hh, _⟩ := loadHistory_line h.history direction h0
  have herase := h.shows.eraseLine
  rw [Terminal.line_length h.length] at herase
  refine ⟨⟨by omega, ?_, ?_⟩, hline⟩
  · rw [hline]
    rw [Terminal.loadHistory, if_neg h0]
    rw [History.selected] at hlen hchars ⊢
    dsimp only
    split
    · exact herase
    · next hpos =>
      rw [if_neg hpos] at hlen hchars
      exact loadChars_shows _ 0 [] (by rw [List.length_nil]; omega)
        (fun c hc => (hchars c hc).2) herase
  · rw [hh]
    exact ⟨h.history.count, h.history.lines, hlow, hhigh⟩

/-- One character: it is appended, or the last one is deleted, or nothing happens. -/
theorem handleAscii_editing {t : Terminal} (h : Editing t) (ascii : UInt8) :
    Editing (t.handleAscii ascii) := by
  have hlen := Terminal.line_length h.length
  unfold Terminal.handleAscii
  split
  · split
    · next hpos =>
      -- the line without its last character
      obtain ⟨n, hn⟩ : ∃ n, t.commandLength = n + 1 := ⟨t.commandLength - 1, by omega⟩
      have hmax := h.length
      have hsplit : t.line = (List.ofFn t.commandBuffer).take n ++
          [t.commandBuffer ⟨n, by omega⟩] := by
        rw [Terminal.line, hn, List.take_add_one, List.getElem?_ofFn, dif_pos (by omega)]
        rfl
      have hshow := h.shows
      rw [hsplit] at hshow
      refine ⟨by dsimp only; omega, ?_, h.history⟩
      rw [Terminal.line]
      dsimp only
      rw [hn, Nat.add_sub_cancel, Row.set_take_of_le _ (Nat.le_refl n)]
      exact hshow.backspace
    · exact h
  · next h8 =>
    split
    · refine ⟨h.length, ?_, h.history⟩
      rw [Terminal.line]
      dsimp only
      rw [Row.set_take_of_le _ (Nat.le_refl _)]
      exact h.shows
    · next h10 =>
      split
      · next hchar =>
        refine ⟨by dsimp only; omega, ?_, h.history⟩
        rw [Terminal.line]
        dsimp only
        rw [Row.set_take _ (by omega)]
        exact h.shows.printChar (by omega) h8 h10
      · exact h

theorem loadHistory_editing {t : Terminal} (h : Editing t) (direction : Int) :
    Editing (t.loadHistory direction) := by
  by_cases h0 : t.history.historyCount = 0
  · rw [Terminal.loadHistory, if_pos h0]
    exact h
  · exact (loadHistory_spec h direction h0).1

/-- Every key keeps the line and the screen together. -/
theorem keyboardIsrHandler_editing {t : Terminal} (h : Editing t) (scancode : UInt8) :
    Editing (t.keyboardIsrHandler scancode) := by
  have hmode : ∀ {t : Terminal}, Editing t → ∀ e, Editing { t with e0Mode := e } :=
    fun h _ => ⟨h.length, h.shows, h.history⟩
  unfold Terminal.keyboardIsrHandler
  split
  · exact hmode h true
  · split
    · refine hmode ?_ false
      split
      · refine loadHistory_editing ?_ _
        split
        · exact loadHistory_editing h _
        · exact h
      · split
        · exact loadHistory_editing h _
        · exact h
    · split
      · exact ⟨h.length, h.shows, h.history⟩
      · split
        · exact ⟨h.length, h.shows, h.history⟩
        · split
          · split
            · exact handleAscii_editing h _
            · exact h
          · exact h

/-! ## Runs -/

/-- A fresh prompt: an empty line, the cursor anywhere on the screen, any shift state and
any history of typed lines, of which any entry may be selected. -/
def Terminal.FreshPrompt (t : Terminal) : Prop :=
  t.commandLength = 0 ∧ t.screen.promptMinOffset = t.screen.cursorOffset ∧
    t.screen.cursorOffset % 2 = 0 ∧ t.screen.cursorOffset < 4000 ∧
    ∃ (lines : List Row) (pos : Int), (∀ row, row ∈ lines → row.IsLine) ∧ -1 ≤ pos ∧
      pos < (lines.foldl History.addToHistory .empty).historyCount ∧
      t.history = { lines.foldl History.addToHistory .empty with historyPos := pos }

/-- All sequences of scancodes without Enter. -/
def editorRuns : TransitionSystem Terminal UInt8 where
  init := Terminal.FreshPrompt
  allowed := fun t scancode => t.isEnter scancode = false
  step := Terminal.keyboardIsrHandler

theorem freshPrompt_editing {t : Terminal} (h : t.FreshPrompt) : Editing t := by
  obtain ⟨hlen, hprompt, heven, hrange, lines, pos, hlines, hlow, hhigh, hhist⟩ := h
  have hnil : t.line = [] := by rw [Terminal.line, hlen, List.take_zero]
  refine ⟨by omega, ?_, ?_⟩
  · rw [hnil]
    refine ⟨?_, heven, hrange, fun j hj => absurd hj (Nat.not_lt_zero j)⟩
    rw [List.length_nil]
    omega
  · have hfold : ∀ (rows : List Row) (h : History), h.WellFormed → (∀ row, row ∈ rows → row.IsLine) →
        (rows.foldl History.addToHistory h).WellFormed := by
      intro rows
      induction rows with
      | nil => exact fun _ hw _ => hw
      | cons row rows ih =>
        intro h hw hrows
        exact ih _ (hw.addToHistory (hrows row List.mem_cons_self))
          fun r hr => hrows r (List.mem_cons_of_mem _ hr)
    have hw := hfold lines .empty History.empty_wellFormed hlines
    rw [hhist]
    exact ⟨hw.count, hw.lines, hlow, hhigh⟩

theorem reachable_editing {t : Terminal} (h : editorRuns.Reachable t) : Editing t := by
  refine h.invariant ?_ ?_
  · intro t ht
    exact freshPrompt_editing ht
  · intro t scancode _ ht _
    exact keyboardIsrHandler_editing ht scancode

/-- The line editor matches the screen. After any keys other than Enter the line has at
most 255 characters, the cells behind the prompt hold it and the cursor is behind them; Up
and Down replace it by the selected history entry, or by nothing when none is selected. With
an empty history they leave the line as it is. -/
theorem run_line_editor {t : Terminal} (h : editorRuns.Reachable t) :
    t.commandLength ≤ 255 ∧
    t.screen.cursorOffset = t.screen.promptMinOffset + 2 * t.commandLength ∧
    (∀ j : Fin 256, j.val < t.commandLength →
      t.screen.videoMemory (t.screen.promptMinOffset + 2 * j) = t.commandBuffer j) ∧
    (t.e0Mode = true → t.history.historyCount ≠ 0 →
      (t.keyboardIsrHandler 0x48).line = t.history.selected 1 ∧
      (t.keyboardIsrHandler 0x50).line = t.history.selected (-1)) ∧
    (t.e0Mode = true → t.history.historyCount = 0 →
      t.keyboardIsrHandler 0x48 = { t with e0Mode := false } ∧
      t.keyboardIsrHandler 0x50 = { t with e0Mode := false }) := by
  have hinv := reachable_editing h
  have hlen := Terminal.line_length hinv.length
  have hup : t.e0Mode = true →
      t.keyboardIsrHandler 0x48 = { t.loadHistory 1 with e0Mode := false } ∧
      t.keyboardIsrHandler 0x50 = { t.loadHistory (-1) with e0Mode := false } := by
    intro he
    constructor <;> simp [Terminal.keyboardIsrHandler, he]
  refine ⟨hinv.length, ?_, ?_, ?_, ?_⟩
  · rw [hinv.shows.cursor, hlen]
  · intro j hj
    rw [hinv.shows.cells j (by omega), Terminal.line, List.getD_eq_getElem _ _ (by
      rw [List.length_take, List.length_ofFn]; omega), List.getElem_take, List.getElem_ofFn]
  · intro he h0
    obtain ⟨h48, h50⟩ := hup he
    rw [h48, h50]
    exact ⟨(loadHistory_spec hinv 1 h0).2, (loadHistory_spec hinv (-1) h0).2⟩
  · intro he h0
    obtain ⟨h48, h50⟩ := hup he
    rw [h48, h50, Terminal.loadHistory, Terminal.loadHistory, if_pos h0, if_pos h0]
    exact ⟨rfl, rfl⟩

/-- A prompt in the middle of the last row, with the given history. -/
def samplePrompt (history : History) : Terminal where
  screen := ⟨fun _ => 32, 3920, 3920⟩
  shiftActive := false
  e0Mode := false
  commandBuffer := fun _ => 0
  commandLength := 0
  commandReady := false
  history := history

/-- The row that holds `ls`. -/
def sampleRow : Row := (Row.set (fun _ => 0) 0 108).set 1 115

theorem run_line_editor_sample :
    (([0x1E, 0xE0].foldl Terminal.keyboardIsrHandler
      (samplePrompt (History.empty.addToHistory sampleRow))).keyboardIsrHandler 0x48).line =
        [108, 115] := by
  have hfresh : (samplePrompt (History.empty.addToHistory sampleRow)).FreshPrompt := by
    refine ⟨rfl, rfl, rfl, by decide, [sampleRow], -1, ?_, by decide, by decide, rfl⟩
    intro row hrow
    rw [List.mem_singleton.mp hrow]
    exact ⟨by decide +kernel, by decide +kernel⟩
  have hinit : editorRuns.Reachable (samplePrompt (History.empty.addToHistory sampleRow)) :=
    .init hfresh
  have hreach : editorRuns.Reachable ([0x1E, 0xE0].foldl Terminal.keyboardIsrHandler
      (samplePrompt (History.empty.addToHistory sampleRow))) := by
    refine hinit.run ?_
    simp only [List.mem_cons, List.not_mem_nil, or_false]
    rintro sc (rfl | rfl) t
    all_goals
      show (!t.e0Mode && decide (t.ascii _ = 10)) = false
      rw [Terminal.ascii, Terminal.layout, Bool.and_eq_false_iff]
      refine Or.inr ?_
      split <;> decide
  have hselected := ((run_line_editor hreach).2.2.2.1 (by decide +kernel) (by decide +kernel)).1
  rw [hselected]
  decide +kernel

/-- With an empty history, Up leaves a typed line as it is: it is replaced neither by an
entry nor by the empty line. -/
theorem up_without_history :
    (samplePrompt .empty).FreshPrompt ∧
      ([0x1E, 0xE0, 0x48].foldl Terminal.keyboardIsrHandler (samplePrompt .empty)).line = [97] := by
  refine ⟨⟨rfl, rfl, rfl, by decide, [], -1, ?_, by decide, by decide, rfl⟩, by decide +kernel⟩
  exact fun row hrow => absurd hrow List.not_mem_nil

end Newrex
