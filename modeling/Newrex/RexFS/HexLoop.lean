import Newrex.Lib.Transition
import Newrex.RexFS.Accesses
import Newrex.RexFS.Hex

/-!
# RexFS: the parsing loop of `rexfs_writehex`, read by read

`parseHexBytes` says which bytes the loop decodes. Here the loop itself is the model. It has two
cursors and a program point, and every array access is one step that goes to a log.

* `HexLoop.step` is one statement of the loop that measures the string, or of the parsing loop.
* `HexLoop.Inv` is its invariant: what is decoded so far, with what is pending, is
  `parseHexBytes` of the whole string.
* `HexLoop.step_spec`: a step keeps the invariant and lowers a variant.
* `HexText` spells bytes with spaces in front of each pair and at the end.
* `hex_payload_decoding`: the loop ends, stays inside both arrays, and decodes every spelled
  string.
-/

namespace Newrex

open AccessLog RexFS

/-! ## The loop -/

/-- The memory from the start of a C string on: its characters, the NUL, and whatever lies
behind. -/
def CString.memory (s : CString) (behind : Nat → UInt8) (i : Nat) : UInt8 :=
  (s.chars ++ [0]).getD i (behind i)

/-- The points of the loop, each in front of one statement of the source. -/
inductive HexPoint
  /-- `while (hex_str[hex_len] != '\0') hex_len++;` -/
  | measure
  /-- `while (j < hex_len)` -/
  | test
  /-- `while (hex_str[j] == ' ') j++;` -/
  | spaces
  /-- `if (hex_str[j] == '\0') break;` -/
  | ending
  /-- `char c1 = hex_str[j++];` -/
  | first
  /-- `if (hex_str[j] == '\0')`, with the warning about an odd number of digits -/
  | odd
  /-- `char c2 = hex_str[j++];` and the store `bin_buf[bin_len++] = val;` -/
  | second
  /-- behind the loop -/
  | ended
deriving DecidableEq, Repr

/-- The variables of the loop. `bytes` is `bin_buf` up to `bin_len`, `warned` tells whether the
warning was printed, and `log` has the array accesses in their order. -/
structure HexLoop where
  point : HexPoint
  hexLen : Nat
  j : Nat
  c1 : UInt8
  bytes : List UInt8
  warned : Bool
  log : List (Access Buffer)

namespace HexLoop

/-- The variables in front of the loop that measures the string. -/
def start : HexLoop := ⟨.measure, 0, 0, 0, [], false, []⟩

/-- A read of `hex_str[i]`. -/
def read (hex : CString) (s : HexLoop) (i : Nat) : HexLoop :=
  { s with log := s.log ++ [⟨.text hex.chars.length, i⟩] }

/-- `bin_buf[bin_len++] = val;` -/
def store (s : HexLoop) (val : UInt8) : HexLoop :=
  { s with bytes := s.bytes ++ [val], log := s.log ++ [⟨.binBuf s.hexLen, s.bytes.length⟩] }

/-- One statement. The memory behind the string is a parameter. -/
def step (hex : CString) (behind : Nat → UInt8) (s : HexLoop) : HexLoop :=
  let hexStr := hex.memory behind
  match s.point with
  | .measure =>
    let s := s.read hex s.hexLen
    if hexStr s.hexLen ≠ 0 then { s with hexLen := s.hexLen + 1 } else { s with point := .test }
  | .test => if s.j < s.hexLen then { s with point := .spaces } else { s with point := .ended }
  | .spaces =>
    let s := s.read hex s.j
    if hexStr s.j = 32 then { s with j := s.j + 1 } else { s with point := .ending }
  | .ending =>
    let s := s.read hex s.j
    if hexStr s.j = 0 then { s with point := .ended } else { s with point := .first }
  | .first =>
    let s := s.read hex s.j
    { s with point := .odd, c1 := hexStr s.j, j := s.j + 1 }
  | .odd =>
    let s := s.read hex s.j
    if hexStr s.j = 0 then { s with point := .ended, warned := true }
    else { s with point := .second }
  | .second =>
    let s := s.read hex s.j
    let c2 := hexStr s.j
    { s.store ((hexDigit s.c1 <<< 4) + hexDigit c2) with point := .test, j := s.j + 1 }
  | .ended => s

end HexLoop

/-! ## The string in memory -/

section Memory

variable {hex : CString} (behind : Nat → UInt8) {i : Nat}

theorem CString.memory_length : hex.memory behind hex.chars.length = 0 := by
  simp [CString.memory]

theorem CString.memory_of_lt (hi : i < hex.chars.length) : hex.memory behind i = hex.chars[i] := by
  simp [CString.memory, List.getD, List.getElem?_append_left hi, List.getElem?_eq_getElem hi]

/-- Up to its end, the string has its NUL only at the end. -/
theorem CString.memory_cases (hi : i ≤ hex.chars.length) :
    (hex.memory behind i = 0 ∧ i = hex.chars.length) ∨
      (hex.memory behind i ≠ 0 ∧ i < hex.chars.length) := by
  rcases Nat.lt_or_eq_of_le hi with hlt | rfl
  · refine Or.inr ⟨?_, hlt⟩
    rw [memory_of_lt behind hlt]
    exact hex.nulFree _ (List.getElem_mem hlt)
  · exact Or.inl ⟨memory_length behind, rfl⟩

theorem CString.drop_eq (hi : i < hex.chars.length) :
    hex.chars.drop i = hex.memory behind i :: hex.chars.drop (i + 1) := by
  rw [memory_of_lt behind hi]
  exact List.drop_eq_getElem_cons hi

end Memory

/-! ## The invariant -/

namespace HexLoop

/-- The characters that the loop has still to decode: a first digit that it holds, and the
string from the cursor on. -/
def pending (hex : CString) (s : HexLoop) : List UInt8 :=
  match s.point with
  | .measure | .test | .spaces | .ending | .first => hex.chars.drop s.j
  | .odd | .second => s.c1 :: hex.chars.drop s.j
  | .ended => []

/-- The number of digits that the loop holds. -/
def held : HexPoint → Nat
  | .odd | .second => 1
  | _ => 0

/-- What the tests passed since the start of the iteration say about the character at the cursor
and about the digit held. -/
def Tested (hex : CString) (behind : Nat → UInt8) (s : HexLoop) : Prop :=
  match s.point with
  | .ending => hex.memory behind s.j ≠ 32
  | .first => s.j < hex.chars.length ∧ hex.memory behind s.j ≠ 32
  | .odd => s.c1 ≠ 32
  | .second => s.j < hex.chars.length ∧ s.c1 ≠ 32
  | .measure | .test | .spaces | .ended => True

/-- The accesses that `writehexAccesses` gives the loop when it has stored `n` bytes: the string
with its NUL, and the bytes. -/
def Logged (hex : CString) (n : Nat) (log : List (Access Buffer)) : Prop :=
  ∀ a, a ∈ log → a ∈ span (.text hex.chars.length) 0 (hex.chars.length + 1) ++
    span (.binBuf hex.chars.length) 0 n

/-- The invariant. The cursor has passed two characters for each byte, and a digit held. The
decoder, run on what is pending, would complete the bytes to those of the whole string. -/
structure Inv (hex : CString) (behind : Nat → UInt8) (s : HexLoop) : Prop where
  hexLen_le : s.hexLen ≤ hex.chars.length
  measured : s.point ≠ .measure → s.hexLen = hex.chars.length
  j_le : s.j ≤ hex.chars.length
  count : 2 * s.bytes.length + held s.point ≤ s.j
  tested : Tested hex behind s
  decoded : parseHexBytes hex.chars =
    (s.bytes ++ (parseHexBytes (s.pending hex)).1, s.warned || (parseHexBytes (s.pending hex)).2)
  logged : Logged hex s.bytes.length s.log

/-- An upper bound on the number of steps to the end. -/
def variant (hex : CString) (s : HexLoop) : Nat :=
  match s.point with
  | .measure => 4 * hex.chars.length + 5 + (hex.chars.length - s.hexLen)
  | .test => 4 * (hex.chars.length - s.j) + 4
  | .spaces => 4 * (hex.chars.length - s.j) + 3
  | .ending => 4 * (hex.chars.length - s.j) + 2
  | .first => 4 * (hex.chars.length - s.j) + 1
  | .odd => 4 * (hex.chars.length - s.j) + 2
  | .second => 4 * (hex.chars.length - s.j) + 1
  | .ended => 0

theorem start_inv (hex : CString) (behind : Nat → UInt8) : Inv hex behind start where
  hexLen_le := Nat.zero_le _
  measured := fun h => absurd rfl h
  j_le := Nat.zero_le _
  count := Nat.le_refl 0
  tested := trivial
  decoded := by simp [start, pending]
  logged := fun _ ha => absurd ha List.not_mem_nil

namespace Logged

variable {hex : CString} {n i : Nat} {log : List (Access Buffer)}

theorem read (h : Logged hex n log) (hi : i ≤ hex.chars.length) :
    Logged hex n (log ++ [⟨.text hex.chars.length, i⟩]) := by
  intro a ha
  rcases List.mem_append.mp ha with hold | hnew
  · exact h a hold
  · refine List.mem_append_left _ (List.mem_map.mpr ⟨i, List.mem_range.mpr (by omega), ?_⟩)
    rw [List.mem_singleton.mp hnew, Nat.zero_add]

theorem store (h : Logged hex n log) :
    Logged hex (n + 1) (log ++ [⟨.binBuf hex.chars.length, n⟩]) := by
  intro a ha
  rcases List.mem_append.mp ha with hold | hnew
  · rcases List.mem_append.mp (h a hold) with htext | hbuf
    · exact List.mem_append_left _ htext
    · obtain ⟨i, hi, rfl⟩ := List.mem_map.mp hbuf
      have hlt := List.mem_range.mp hi
      exact List.mem_append_right _ (List.mem_map.mpr ⟨i, List.mem_range.mpr (by omega), rfl⟩)
  · refine List.mem_append_right _ (List.mem_map.mpr ⟨n, List.mem_range.mpr (by omega), ?_⟩)
    rw [List.mem_singleton.mp hnew, Nat.zero_add]

end Logged

/-! ## One step -/

theorem parseHexBytes_space (rest : List UInt8) :
    parseHexBytes (32 :: rest) = parseHexBytes rest :=
  parseHexBytes_spaces 1 rest

/-- The step from `s` keeps the invariant and lowers the variant. -/
def Advances (hex : CString) (behind : Nat → UInt8) (s : HexLoop) : Prop :=
  Inv hex behind (step hex behind s) ∧ variant hex (step hex behind s) < variant hex s

variable {hex : CString} {behind : Nat → UInt8} {hexLen j : Nat} {c1 : UInt8}
  {bytes : List UInt8} {warned : Bool} {log : List (Access Buffer)}

theorem measure_advances (h : Inv hex behind ⟨.measure, hexLen, j, c1, bytes, warned, log⟩) :
    Advances hex behind ⟨.measure, hexLen, j, c1, bytes, warned, log⟩ := by
  have hle : hexLen ≤ hex.chars.length := h.hexLen_le
  have hj : j ≤ hex.chars.length := h.j_le
  unfold Advances
  rcases CString.memory_cases behind hle with ⟨hnul, hlen⟩ | ⟨hnul, hlt⟩
  · simp only [step, read, hnul, ne_eq, not_true_eq_false, if_false]
    refine ⟨{ h with measured := fun _ => hlen, logged := h.logged.read hle }, ?_⟩
    simp only [variant]
    omega
  · simp only [step, read, hnul, ne_eq, not_false_eq_true, if_true]
    refine ⟨{ h with
      hexLen_le := hlt
      measured := fun hne => absurd rfl hne
      logged := h.logged.read hle }, ?_⟩
    simp only [variant]
    omega

theorem test_advances (h : Inv hex behind ⟨.test, hexLen, j, c1, bytes, warned, log⟩) :
    Advances hex behind ⟨.test, hexLen, j, c1, bytes, warned, log⟩ := by
  have hlen : hexLen = hex.chars.length := h.measured (by simp)
  have hdec := h.decoded
  unfold Advances
  rcases Nat.lt_or_ge j hexLen with hlt | hge
  · simp only [step, hlt, if_true]
    refine ⟨{ h with measured := fun _ => hlen }, ?_⟩
    simp only [variant]
    omega
  · simp only [step, hge.not_gt, if_false]
    refine ⟨{ h with measured := fun _ => hlen, decoded := ?_ }, ?_⟩
    · have hnil : hex.chars.drop j = [] := List.drop_eq_nil_of_le (by omega)
      simpa [pending, hnil] using hdec
    · simp only [variant]
      omega

theorem spaces_advances (h : Inv hex behind ⟨.spaces, hexLen, j, c1, bytes, warned, log⟩) :
    Advances hex behind ⟨.spaces, hexLen, j, c1, bytes, warned, log⟩ := by
  have hlen : hexLen = hex.chars.length := h.measured (by simp)
  have hj : j ≤ hex.chars.length := h.j_le
  have hcount : 2 * bytes.length ≤ j := h.count
  have hdec := h.decoded
  unfold Advances
  by_cases hspace : hex.memory behind j = 32
  · have hlt : j < hex.chars.length := by
      rcases CString.memory_cases behind hj with ⟨hnul, _⟩ | ⟨_, hlt⟩
      · rw [hnul] at hspace
        exact absurd hspace (by decide)
      · exact hlt
    simp only [step, read, hspace, if_true]
    refine ⟨{ h with
      j_le := hlt
      count := Nat.le_succ_of_le hcount
      decoded := ?_
      logged := h.logged.read hj }, ?_⟩
    · simpa [pending, CString.drop_eq behind hlt, hspace, parseHexBytes_space] using hdec
    · simp only [variant]
      omega
  · simp only [step, read, hspace, if_false]
    refine ⟨{ h with
      measured := fun _ => hlen
      tested := hspace
      logged := h.logged.read hj }, ?_⟩
    simp only [variant]
    omega

theorem ending_advances (h : Inv hex behind ⟨.ending, hexLen, j, c1, bytes, warned, log⟩) :
    Advances hex behind ⟨.ending, hexLen, j, c1, bytes, warned, log⟩ := by
  have hlen : hexLen = hex.chars.length := h.measured (by simp)
  have hj : j ≤ hex.chars.length := h.j_le
  have hdec := h.decoded
  unfold Advances
  rcases CString.memory_cases behind hj with ⟨hnul, hend⟩ | ⟨hnul, hlt⟩
  · have hnil : hex.chars.drop j = [] := List.drop_eq_nil_of_le hend.ge
    simp only [step, read, hnul, if_true]
    refine ⟨{ h with
      measured := fun _ => hlen
      tested := trivial
      decoded := ?_
      logged := h.logged.read hj }, ?_⟩
    · simpa [pending, hnil] using hdec
    · simp only [variant]
      omega
  · simp only [step, read, hnul, if_false]
    refine ⟨{ h with
      measured := fun _ => hlen
      tested := ⟨hlt, h.tested⟩
      logged := h.logged.read hj }, ?_⟩
    simp only [variant]
    omega

theorem first_advances (h : Inv hex behind ⟨.first, hexLen, j, c1, bytes, warned, log⟩) :
    Advances hex behind ⟨.first, hexLen, j, c1, bytes, warned, log⟩ := by
  have hlen : hexLen = hex.chars.length := h.measured (by simp)
  have hcount : 2 * bytes.length ≤ j := h.count
  obtain ⟨hlt, hspace⟩ : j < hex.chars.length ∧ hex.memory behind j ≠ 32 := h.tested
  have hdec := h.decoded
  unfold Advances
  simp only [step, read]
  refine ⟨{ h with
    measured := fun _ => hlen
    j_le := hlt
    count := Nat.succ_le_succ hcount
    tested := hspace
    decoded := ?_
    logged := h.logged.read hlt.le }, ?_⟩
  · simpa [pending, CString.drop_eq behind hlt] using hdec
  · simp only [variant]
    omega

theorem odd_advances (h : Inv hex behind ⟨.odd, hexLen, j, c1, bytes, warned, log⟩) :
    Advances hex behind ⟨.odd, hexLen, j, c1, bytes, warned, log⟩ := by
  have hlen : hexLen = hex.chars.length := h.measured (by simp)
  have hj : j ≤ hex.chars.length := h.j_le
  have hcount : 2 * bytes.length + 1 ≤ j := h.count
  have hspace : c1 ≠ 32 := h.tested
  have hdec := h.decoded
  unfold Advances
  rcases CString.memory_cases behind hj with ⟨hnul, hend⟩ | ⟨hnul, hlt⟩
  · have hnil : hex.chars.drop j = [] := List.drop_eq_nil_of_le hend.ge
    simp only [step, read, hnul, if_true]
    refine ⟨{ h with
      measured := fun _ => hlen
      count := Nat.le_of_succ_le hcount
      tested := trivial
      decoded := ?_
      logged := h.logged.read hj }, ?_⟩
    · simpa [pending, hnil, parseHexBytes, hspace] using hdec
    · simp only [variant]
      omega
  · simp only [step, read, hnul, if_false]
    refine ⟨{ h with
      measured := fun _ => hlen
      tested := ⟨hlt, hspace⟩
      logged := h.logged.read hj }, ?_⟩
    simp only [variant]
    omega

theorem second_advances (h : Inv hex behind ⟨.second, hexLen, j, c1, bytes, warned, log⟩) :
    Advances hex behind ⟨.second, hexLen, j, c1, bytes, warned, log⟩ := by
  have hlen : hexLen = hex.chars.length := h.measured (by simp)
  have hcount : 2 * bytes.length + 1 ≤ j := h.count
  obtain ⟨hlt, hspace⟩ : j < hex.chars.length ∧ c1 ≠ 32 := h.tested
  have hdec := h.decoded
  unfold Advances
  simp only [step, read, store]
  refine ⟨{ h with
    measured := fun _ => hlen
    j_le := hlt
    count := ?_
    tested := trivial
    decoded := ?_
    logged := ?_ }, ?_⟩
  · show 2 * (bytes ++ [_]).length + 0 ≤ j + 1
    rw [List.length_append, List.length_singleton]
    omega
  · simpa [pending, CString.drop_eq behind hlt, parseHexBytes, hspace] using hdec
  · rw [List.length_append, List.length_singleton, hlen]
    exact (h.logged.read hlt.le).store
  · simp only [variant]
    omega

/-- What a step does from a state with the invariant, until the loop has ended. -/
theorem step_spec {s : HexLoop} (h : Inv hex behind s) (hrun : s.point ≠ .ended) :
    Advances hex behind s := by
  obtain ⟨point, hexLen, j, c1, bytes, warned, log⟩ := s
  cases point with
  | measure => exact measure_advances h
  | test => exact test_advances h
  | spaces => exact spaces_advances h
  | ending => exact ending_advances h
  | first => exact first_advances h
  | odd => exact odd_advances h
  | second => exact second_advances h
  | ended => exact absurd rfl hrun

/-! ## Whole runs -/

/-- The loop after `n` statements. -/
def run (hex : CString) (behind : Nat → UInt8) (n : Nat) : HexLoop :=
  (step hex behind)^[n] start

theorem step_ended {s : HexLoop} (h : s.point = .ended) : step hex behind s = s := by
  simp only [step, h]

theorem run_inv (hex : CString) (behind : Nat → UInt8) (n : Nat) :
    Inv hex behind (run hex behind n) := by
  refine Function.Iterate.rec (Inv hex behind) (start_inv hex behind) (fun s h => ?_) n
  by_cases hend : s.point = .ended
  · rw [step_ended hend]
    exact h
  · exact (step_spec h hend).1

theorem run_ended (hex : CString) (behind : Nat → UInt8) {n : Nat}
    (hn : 5 * hex.chars.length + 5 ≤ n) : (run hex behind n).point = .ended := by
  refine stopped_of_variant (fun s => s.point = .ended) (variant hex) (fun _ => step_ended)
    (fun _ => step_spec) (start_inv hex behind) ?_
  show 4 * hex.chars.length + 5 + (hex.chars.length - 0) ≤ n
  omega

/-- The loop computes `parseHexBytes`. -/
theorem run_decodes (hex : CString) (behind : Nat → UInt8) {n : Nat}
    (hn : 5 * hex.chars.length + 5 ≤ n) :
    ((run hex behind n).bytes, (run hex behind n).warned) = parseHexBytes hex.chars := by
  have hdec := (run_inv hex behind n).decoded
  simp only [pending, run_ended hex behind hn, parseHexBytes, List.append_nil,
    Bool.or_false] at hdec
  exact hdec.symm

theorem run_bytes_length_le (hex : CString) (behind : Nat → UInt8) (n : Nat) :
    (run hex behind n).bytes.length ≤ hex.chars.length / 2 := by
  have h := run_inv hex behind n
  have hcount := h.count
  have hj := h.j_le
  omega

/-- A log of the loop is in bounds when no more bytes are stored than there is room for. -/
theorem Logged.inBounds {n : Nat} (h : Logged hex n log) (hn : n ≤ hex.chars.length / 2) :
    InBounds Buffer.size log := by
  intro a ha
  rcases List.mem_append.mp (h a ha) with htext | hbuf
  · exact InBounds.span_iff.mpr (Or.inr (Nat.zero_add _).le) a htext
  · refine InBounds.span_iff.mpr (Or.inr ?_) a hbuf
    show 0 + n ≤ hex.chars.length / 2 + 1
    omega

end HexLoop

/-! ## Spelled payloads -/

/-- `text` spells `bytes`: for each byte any number of spaces and two digits, in either case, and
any number of spaces at the end. -/
inductive HexText : (bytes text : List UInt8) → Prop
  | nil (spaces : Nat) : HexText [] (List.replicate spaces 32)
  | byte {b high low : UInt8} {bytes text : List UInt8} (spaces : Nat) :
      high ∈ digitChars (b.toNat / 16) → low ∈ digitChars (b.toNat % 16) → HexText bytes text →
      HexText (b :: bytes) (List.replicate spaces 32 ++ high :: low :: text)

namespace HexText

variable {bytes text : List UInt8}

/-- Behind its leading spaces, the text is one with the spaces behind each byte. -/
theorem spells (h : HexText bytes text) :
    ∃ spaces hex, text = List.replicate spaces 32 ++ hex ∧ HexSpells bytes hex := by
  induction h with
  | nil spaces => exact ⟨spaces, [], (List.append_nil _).symm, .nil⟩
  | @byte b high low bytes text spaces hhigh hlow _ ih =>
    obtain ⟨behind, hex, rfl, hspells⟩ := ih
    exact ⟨spaces, _, rfl, .byte behind hhigh hlow hspells⟩

theorem parseHexBytes_eq (h : HexText bytes text) : parseHexBytes text = (bytes, false) := by
  obtain ⟨spaces, hex, rfl, hspells⟩ := h.spells
  rw [parseHexBytes_spaces, parseHexBytes_spelled hspells]

theorem digitChars_ne_zero : ∀ v, v < 16 → ∀ c, c ∈ digitChars v → c ≠ 0 := by
  decide +kernel

/-- A spelled text is a C string. -/
theorem nulFree (h : HexText bytes text) : ∀ c ∈ text, c ≠ 0 := by
  induction h with
  | nil spaces =>
    intro c hc
    rw [List.eq_of_mem_replicate hc]
    decide
  | @byte b high low bytes text spaces hhigh hlow _ ih =>
    have hb := b.toNat_lt
    intro c hc
    rcases List.mem_append.mp hc with hspace | hrest
    · rw [List.eq_of_mem_replicate hspace]
      decide
    · cases hrest with
      | head => exact digitChars_ne_zero _ (by omega) high hhigh
      | tail _ hrest =>
        cases hrest with
        | head => exact digitChars_ne_zero _ (by omega) low hlow
        | tail _ hrest => exact ih c hrest

end HexText

/-! ## The result -/

/-- The parsing loop on any argument, whatever memory lies behind it.
* It ends, after five steps for each character and five more at most, and has then decoded what
  `parseHexBytes` says.
* At no point has it read behind the NUL or stored more than `hex_len / 2` bytes, and every
  access is inside the string or the buffer.
* A text that spells bytes is a C string, and the loop decodes it to these bytes. -/
theorem hex_payload_decoding :
    (∀ (hex : CString) (behind : Nat → UInt8) (n : Nat),
      let s := HexLoop.run hex behind n
      (5 * hex.chars.length + 5 ≤ n →
        s.point = .ended ∧ (s.bytes, s.warned) = parseHexBytes hex.chars) ∧
      HexLoop.Logged hex s.bytes.length s.log ∧ s.bytes.length ≤ hex.chars.length / 2 ∧
      InBounds Buffer.size s.log) ∧
    ∀ bytes text, HexText bytes text → ∃ hex : CString, hex.chars = text ∧
      ∀ behind n, 5 * text.length + 5 ≤ n →
        let s := HexLoop.run hex behind n
        s.point = .ended ∧ s.bytes = bytes ∧ s.warned = false := by
  constructor
  · intro hex behind n s
    have hlogged := (HexLoop.run_inv hex behind n).logged
    have hlength := HexLoop.run_bytes_length_le hex behind n
    refine ⟨fun hn => ?_, hlogged, hlength, hlogged.inBounds hlength⟩
    exact ⟨HexLoop.run_ended hex behind hn, HexLoop.run_decodes hex behind hn⟩
  · intro bytes text htext
    refine ⟨⟨text, htext.nulFree⟩, rfl, fun behind n hn => ?_⟩
    have hdec := HexLoop.run_decodes ⟨text, htext.nulFree⟩ behind hn
    rw [htext.parseHexBytes_eq] at hdec
    obtain ⟨hbytes, hwarned⟩ := Prod.mk.inj hdec
    exact ⟨HexLoop.run_ended _ behind hn, hbytes, hwarned⟩

/-- Two bytes, with spaces in front of each and at the end. -/
theorem hex_payload_decoding_sample :
    ∃ hex : CString, hex.chars = [32, 55, 102, 32, 32, 67, 51, 32] ∧
      (HexLoop.run hex (fun _ => 0xFF) 45).bytes = [0x7F, 0xC3] := by
  have htext : HexText [0x7F, 0xC3] [32, 55, 102, 32, 32, 67, 51, 32] :=
    .byte 1 (by decide) (by decide) (.byte 2 (by decide) (by decide) (.nil 1))
  obtain ⟨hex, hchars, hrun⟩ := hex_payload_decoding.2 _ _ htext
  exact ⟨hex, hchars, (hrun _ 45 (by decide)).2.1⟩

end Newrex
