import Newrex.Terminal.LineEditor

/-!
# The command line of the window manager

With `vga_active` the keyboard handler gives every character to `gui_handle_char`, which keeps a
line of its own in `gui_cmd_buffer[100]` and runs it at Enter. `execute_command` begins with
`add_to_history`, which copies 256 bytes from the start of the line.

* `Editor` is a line editor without a buffer;
* `gui_run`: for all keys the code edits, runs and remembers the lines of the editor, as long as
  the commands return and leave the line and the history alone. It never writes behind the
  buffer, and what `add_to_history` reads there is not seen.
-/

namespace Newrex

/-- The bytes from the start of `gui_cmd_buffer`, of which the first 100 are the buffer,
`gui_cmd_len`, the history and the lines that were executed. -/
structure GuiShell where
  memory : Nat → UInt8
  guiCmdLen : Nat
  history : History
  executed : List (List UInt8)

namespace GuiShell

/-- The C string in `gui_cmd_buffer`. -/
def text (s : GuiShell) : List UInt8 := ((List.range 100).map s.memory).takeWhile (· ≠ 0)

/-- What `add_to_history` copies. -/
def row (s : GuiShell) : Row := fun j => s.memory j

/-- What `execute_command` does with a line behind `add_to_history`; `none` when it does not
return, as `monitor`, which waits for a key with interrupts off, and `panic`. The lines executed
before are part of the state, so that it can depend on what they did. -/
abbrev Rest := List UInt8 → GuiShell → Option GuiShell

/-- A command that returns and leaves the line and the history alone. -/
def Rest.Returns (rest : Rest) (line : List UInt8) : Prop := ∀ s, rest line s = some s

/-- `execute_command`. -/
def executeCommand (rest : Rest) (s : GuiShell) : Option GuiShell :=
  rest s.text
    { s with
      history := s.history.addToHistory s.row
      executed := s.executed ++ [s.text] }

/-- `gui_handle_char`. -/
def guiHandleChar (rest : Rest) (s : GuiShell) (c : UInt8) : Option GuiShell :=
  if c = 8 then
    if 0 < s.guiCmdLen then
      some { s with
        guiCmdLen := s.guiCmdLen - 1
        memory := Function.update s.memory (s.guiCmdLen - 1) 0 }
    else some s
  else if c = 10 then
    (s.executeCommand rest).map fun s =>
      { s with
        guiCmdLen := 0
        memory := Function.update s.memory 0 0 }
  else if 32 ≤ c ∧ c ≤ 126 ∧ s.guiCmdLen < 99 then
    some { s with
      guiCmdLen := s.guiCmdLen + 1
      memory := Function.update (Function.update s.memory s.guiCmdLen c) (s.guiCmdLen + 1) 0 }
  else some s

def run (rest : Rest) (s : GuiShell) (keys : List UInt8) : Option GuiShell :=
  keys.foldlM (guiHandleChar rest) s

end GuiShell

/-! ## The editor -/

/-- The line, and the lines that were submitted. -/
structure Editor where
  line : List UInt8
  submitted : List (List UInt8)

namespace Editor

def key (e : Editor) (c : UInt8) : Editor :=
  if c = 8 then { e with line := e.line.dropLast }
  else if c = 10 then ⟨[], e.submitted ++ [e.line]⟩
  else if 32 ≤ c ∧ c ≤ 126 ∧ e.line.length < 99 then { e with line := e.line ++ [c] }
  else e

def run (e : Editor) (keys : List UInt8) : Editor := keys.foldl key e

/-- The lines that were not empty, the last one first. -/
def recent (e : Editor) : List (List UInt8) := (e.submitted.filter (· ≠ [])).reverse

theorem key_submitted (e : Editor) (c : UInt8) : e.submitted ⊆ (e.key c).submitted := by
  unfold key
  split
  · exact List.Subset.refl _
  · split
    · exact List.subset_append_left _ _
    · split <;> exact List.Subset.refl _

theorem run_submitted (e : Editor) (keys : List UInt8) : e.submitted ⊆ (e.run keys).submitted := by
  induction keys generalizing e with
  | nil => exact List.Subset.refl _
  | cons c keys ih => exact List.Subset.trans (e.key_submitted c) (ih (e.key c))

end Editor

/-- The memory holds a line with its NUL. -/
structure HoldsLine (memory : Nat → UInt8) (line : List UInt8) : Prop where
  length : line.length ≤ 99
  chars : ∀ i c, (line)[i]? = some c → memory i = c
  nul : memory line.length = 0
  printable : ∀ c, c ∈ line → 32 ≤ c ∧ c ≤ 126

namespace HoldsLine

variable {memory : Nat → UInt8} {line : List UInt8} {c : UInt8}

theorem ne_zero (h : HoldsLine memory line) (hc : c ∈ line) : c ≠ 0 := by
  rintro rfl
  exact absurd (h.printable 0 hc).1 (by decide)

/-- A string that ends in the first `n` bytes. -/
theorem takeWhile (h : HoldsLine memory line) {n : Nat} (hn : line.length < n) :
    ((List.range n).map memory).takeWhile (· ≠ 0) = line := by
  have hsplit : (List.range n).map memory =
      line ++ 0 :: ((List.range n).map memory).drop (line.length + 1) := by
    refine List.ext_getElem? fun i => ?_
    rcases Nat.lt_trichotomy i line.length with hi | rfl | hi
    · rw [List.getElem?_append_left hi, List.getElem?_map, List.getElem?_range (by omega)]
      rw [List.getElem?_eq_getElem hi]
      exact congrArg some (h.chars i _ (List.getElem?_eq_getElem hi))
    · rw [List.getElem?_append_right (Nat.le_refl _), Nat.sub_self, List.getElem?_map,
        List.getElem?_range hn]
      exact congrArg some h.nul
    · rw [List.getElem?_append_right (Nat.le_of_lt hi)]
      obtain ⟨k, rfl⟩ := Nat.exists_eq_add_of_lt hi
      rw [show line.length + k + 1 - line.length = k + 1 by omega, List.getElem?_cons_succ,
        List.getElem?_drop]
      congr 1
      omega
  rw [hsplit]
  exact takeWhile_terminated fun c hc => h.ne_zero hc

theorem empty (hnul : memory 0 = 0) : HoldsLine memory [] :=
  ⟨Nat.zero_le 99, fun _ _ h => by simp at h, hnul, fun _ hc => absurd hc List.not_mem_nil⟩

theorem append (h : HoldsLine memory line) (hc : 32 ≤ c ∧ c ≤ 126) (hlen : line.length < 99) :
    HoldsLine (Function.update (Function.update memory line.length c) (line.length + 1) 0)
      (line ++ [c]) := by
  refine ⟨by rw [List.length_append]; exact hlen, fun i d hd => ?_, ?_, fun d hd => ?_⟩
  · rcases Nat.lt_or_ge i line.length with hi | hi
    · rw [List.getElem?_append_left hi] at hd
      rw [Function.update_of_ne (by omega), Function.update_of_ne (by omega)]
      exact h.chars i d hd
    · obtain ⟨hlt, -⟩ := List.getElem?_eq_some_iff.mp hd
      rw [List.length_append, List.length_singleton] at hlt
      obtain rfl : i = line.length := by omega
      rw [List.getElem?_append_right (Nat.le_refl _), Nat.sub_self] at hd
      cases hd
      rw [Function.update_of_ne (Nat.ne_of_lt (Nat.lt_succ_self _)), Function.update_self]
  · rw [List.length_append, List.length_singleton, Function.update_self]
  · rcases List.mem_append.mp hd with hd | hd
    · exact h.printable d hd
    · rw [List.mem_singleton.mp hd]
      exact hc

theorem dropLast (h : HoldsLine memory line) :
    HoldsLine (Function.update memory (line.length - 1) 0) line.dropLast := by
  have hlength : line.dropLast.length = line.length - 1 := List.length_dropLast
  refine ⟨by rw [hlength]; exact Nat.le_trans (Nat.sub_le _ _) h.length, fun i d hd => ?_, ?_,
    fun d hd => h.printable d (List.dropLast_subset line hd)⟩
  · obtain ⟨hlt, -⟩ := List.getElem?_eq_some_iff.mp hd
    rw [hlength] at hlt
    rw [Function.update_of_ne (Nat.ne_of_lt hlt)]
    rw [List.getElem?_dropLast, if_pos hlt] at hd
    exact h.chars i d hd
  · rw [hlength, Function.update_self]

end HoldsLine

/-! ## The code follows the editor -/

/-- The last ten lines are in the history. -/
structure Remembers (h : History) (lines : List (List UInt8)) : Prop where
  count : h.historyCount = min lines.length 10
  rows : ∀ i, i < 10 → (h.cmdHistory i).chars = lines.getD i []

theorem Remembers.empty : Remembers .empty [] := by
  refine ⟨rfl, fun i _ => ?_⟩
  show Row.chars (fun _ => 0) = _
  rw [Row.chars, List.ofFn_succ, List.takeWhile_cons_of_neg (by decide)]
  rfl

theorem Remembers.add {h : History} {lines : List (List UInt8)} (hr : Remembers h lines)
    {cmd : Row} (hcmd : cmd 0 ≠ 0) : Remembers (h.addToHistory cmd) (cmd.chars :: lines) := by
  rw [History.addToHistory, if_neg hcmd]
  refine ⟨?_, fun i hi => ?_⟩
  · dsimp only
    rw [hr.count, List.length_cons]
    split <;> omega
  · dsimp only
    cases i with
    | zero => rw [if_pos rfl, List.getD_cons_zero]
    | succ i =>
      rw [if_neg (Nat.succ_ne_zero i), if_pos hi]
      exact hr.rows i (Nat.lt_of_succ_lt hi)

/-- The state of the code for a state of the editor, with the memory and the remembered lines
that it started with. -/
structure GuiShell.Follows (start : Nat → UInt8) (old : List (List UInt8)) (s : GuiShell)
    (e : Editor) : Prop where
  line : HoldsLine s.memory e.line
  len : s.guiCmdLen = e.line.length
  executed : s.executed = e.submitted
  history : Remembers s.history (e.recent ++ old)
  behind : ∀ i, 100 ≤ i → s.memory i = start i

namespace GuiShell.Follows

variable {start : Nat → UInt8} {old : List (List UInt8)} {s : GuiShell} {e : Editor}

theorem row_chars (h : Follows start old s e) : s.row.chars = e.line := by
  have hrow : List.ofFn s.row = (List.range 256).map s.memory := by
    refine List.ext_getElem (by rw [List.length_ofFn, List.length_map, List.length_range]) ?_
    intro i h1 h2
    rw [List.getElem_ofFn, List.getElem_map, List.getElem_range]
    rfl
  rw [Row.chars, hrow]
  exact h.line.takeWhile (Nat.lt_of_le_of_lt h.line.length (by decide))

theorem row_zero (h : Follows start old s e) : s.row 0 = 0 ↔ e.line = [] := by
  cases hline : e.line with
  | nil =>
    have hnul := h.line.nul
    rw [hline] at hnul
    exact iff_of_true hnul rfl
  | cons c line =>
    have hc := h.line.chars 0 c (by rw [hline]; rfl)
    refine iff_of_false ?_ (List.cons_ne_nil c line)
    show s.memory 0 ≠ 0
    rw [hc]
    exact h.line.ne_zero (by rw [hline]; exact List.mem_cons_self)

/-- Enter, with a command that returns. -/
theorem enter (h : Follows start old s e) {rest : Rest} (hrest : rest.Returns e.line) :
    ∃ s', s.guiHandleChar rest 10 = some s' ∧ Follows start old s' (e.key 10) := by
  have htext : s.text = e.line :=
    h.line.takeWhile (Nat.lt_of_le_of_lt h.line.length (by decide))
  have hkey : e.key 10 = ⟨[], e.submitted ++ [e.line]⟩ := rfl
  rw [hkey, guiHandleChar, if_neg (by decide), if_pos rfl, executeCommand, htext, hrest]
  refine ⟨_, rfl, HoldsLine.empty ?_, rfl, ?_, ?_, fun i hi => ?_⟩
  · exact Function.update_self 0 0 s.memory
  · show s.executed ++ [e.line] = _
    rw [h.executed]
  · show Remembers (s.history.addToHistory s.row) _
    rw [Editor.recent, List.filter_append, List.reverse_append]
    by_cases hline : e.line = []
    · rw [History.addToHistory, if_pos (h.row_zero.mpr hline), hline]
      exact h.history
    · have hfirst : s.row 0 ≠ 0 := fun h0 => hline (h.row_zero.mp h0)
      have hadd := h.history.add hfirst
      rw [h.row_chars] at hadd
      rw [List.filter_cons_of_pos (by simpa using hline)]
      exact hadd
  · show Function.update s.memory 0 0 i = _
    rw [Function.update_of_ne (by omega)]
    exact h.behind i hi

theorem key (h : Follows start old s e) {rest : Rest} {c : UInt8}
    (hrest : ∀ line, line ∈ (e.key c).submitted → rest.Returns line) :
    ∃ s', s.guiHandleChar rest c = some s' ∧ Follows start old s' (e.key c) := by
  by_cases h8 : c = 8
  · subst h8
    rw [Editor.key, if_pos rfl, guiHandleChar, if_pos rfl]
    cases hlen : s.guiCmdLen with
    | zero =>
      have hempty : e.line = [] := List.eq_nil_of_length_eq_zero (h.len.symm.trans hlen)
      have hnil : HoldsLine s.memory [] := hempty ▸ h.line
      rw [if_neg (Nat.lt_irrefl 0), hempty]
      exact ⟨s, rfl, hnil, hlen, h.executed, h.history, h.behind⟩
    | succ n =>
      have hpos : 0 < e.line.length := by rw [← h.len, hlen]; exact Nat.succ_pos n
      rw [if_pos (Nat.succ_pos n), ← hlen, h.len]
      refine ⟨_, rfl, h.line.dropLast, List.length_dropLast.symm, h.executed, h.history,
        fun i hi => ?_⟩
      have hlong := h.line.length
      rw [← h.behind i hi]
      exact Function.update_of_ne (by omega) _ _
  · by_cases h10 : c = 10
    · subst h10
      exact h.enter (hrest e.line (List.mem_append_right _ (List.mem_singleton_self _)))
    · rw [Editor.key, if_neg h8, if_neg h10, guiHandleChar, if_neg h8, if_neg h10, h.len]
      split
      case isTrue htype =>
        obtain ⟨hlow, hhigh, hshort⟩ := htype
        refine ⟨_, rfl, h.line.append ⟨hlow, hhigh⟩ hshort, ?_, h.executed, h.history,
          fun i hi => ?_⟩
        · rw [List.length_append, List.length_singleton]
        · rw [← h.behind i hi]
          exact (Function.update_of_ne (by omega) _ _).trans
            (Function.update_of_ne (by omega) _ _)
      case isFalse => exact ⟨s, rfl, h⟩

theorem run (h : Follows start old s e) {rest : Rest} {keys : List UInt8}
    (hrest : ∀ line, line ∈ (e.run keys).submitted → rest.Returns line) :
    ∃ s', s.run rest keys = some s' ∧ Follows start old s' (e.run keys) := by
  induction keys generalizing s e with
  | nil => exact ⟨s, rfl, h⟩
  | cons c keys ih =>
    obtain ⟨s1, hs1, h1⟩ := h.key fun line hline =>
      hrest line ((e.key c).run_submitted keys hline)
    obtain ⟨s2, hs2, h2⟩ := ih h1 hrest
    refine ⟨s2, ?_, h2⟩
    rw [GuiShell.run, List.foldlM_cons, hs1]
    exact hs2

end GuiShell.Follows

/-- The window manager at its start, with any bytes behind the buffer and any history: `vgamode`
is in it, and what came before. -/
def GuiShell.boot (behind : Nat → UInt8) (history : History) : GuiShell :=
  ⟨fun i => if i < 100 then 0 else behind i, 0, history, []⟩

/-- For all keys whose commands return and leave the line and the history alone, the lines that
are executed and remembered are those of the editor, in front of the lines remembered before,
the line fits in the buffer with its NUL, and the bytes behind the buffer stay as they are. -/
theorem gui_run (behind : Nat → UInt8) {history : History} {old : List (List UInt8)}
    (hold : Remembers history old) (rest : GuiShell.Rest) (keys : List UInt8)
    (hrest : ∀ line, line ∈ (Editor.run ⟨[], []⟩ keys).submitted → rest.Returns line) :
    let e := Editor.run ⟨[], []⟩ keys
    ∃ s, (GuiShell.boot behind history).run rest keys = some s ∧
      s.text = e.line ∧ e.line.length ≤ 99 ∧ s.executed = e.submitted ∧
      s.history.historyCount = min (e.recent.length + old.length) 10 ∧
      (∀ i, i < 10 → (s.history.cmdHistory i).chars = (e.recent ++ old).getD i []) ∧
      ∀ i, 100 ≤ i → s.memory i = behind i := by
  have hstart : GuiShell.Follows behind old (GuiShell.boot behind history) ⟨[], []⟩ :=
    ⟨HoldsLine.empty rfl, rfl, rfl, hold, fun i hi => if_neg (Nat.not_lt_of_ge hi)⟩
  obtain ⟨s, hs, hend⟩ := hstart.run hrest
  refine ⟨s, hs, ?_, hend.line.length, hend.executed, ?_, hend.history.rows, hend.behind⟩
  · exact hend.line.takeWhile (Nat.lt_of_le_of_lt hend.line.length (by decide))
  · rw [hend.history.count, List.length_append]

/-- The line `vgamode`. -/
def vgamodeRow : Row := fun i => [118, 103, 97, 109, 111, 100, 101].getD i 0

/-- Every command but `monitor` returns. -/
def sampleRest : GuiShell.Rest := fun line s =>
  if line = [109, 111, 110, 105, 116, 111, 114] then none else some s

/-- `a` and Enter, behind `vgamode`. -/
theorem gui_run_sample :
    ∃ s, (GuiShell.boot (fun _ => 0) (History.empty.addToHistory vgamodeRow)).run sampleRest
        [97, 10] = some s ∧
      s.executed = [[97]] ∧ (s.history.cmdHistory 0).chars = [97] ∧
      (s.history.cmdHistory 1).chars = [118, 103, 97, 109, 111, 100, 101] := by
  have hchars : vgamodeRow.chars = [118, 103, 97, 109, 111, 100, 101] := by decide +kernel
  have hold : Remembers (History.empty.addToHistory vgamodeRow) [vgamodeRow.chars] :=
    Remembers.empty.add (by decide)
  rw [hchars] at hold
  obtain ⟨s, hs, -, -, hexecuted, -, hrows, -⟩ := gui_run (fun _ => 0) hold sampleRest [97, 10]
    fun line hline s => if_neg (by rw [List.mem_singleton.mp hline]; decide)
  exact ⟨s, hs, hexecuted, hrows 0 (by decide), hrows 1 (by decide)⟩

end Newrex
