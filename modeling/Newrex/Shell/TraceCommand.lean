import Mathlib.Data.List.GetD
import Newrex.Lib.CircularLog
import Newrex.Trace

/-!
# The `trace` command

The branch of `execute_command` in `kernel/kernel.c` that prints the ring of events. The ring
is a circular log (`log_sysTrace`), and the command has to print the events that it holds from
the oldest on. Its start index is chosen the wrong way round: a full ring is printed from its
first slot, and one that is not full from the first slot that is still empty.

`trace_command_iff` says for which events this makes no difference. The number of events is a
multiple of twelve, or the events repeat.
-/

namespace Newrex

open CircularLog

/-- The string in a slot of `trace_ring`. A slot without NUL, which is never stored, is read
to its end. -/
def TraceRing.text (t : TraceRing) (k : Fin 12) : List UInt8 :=
  (List.ofFn (t.ring k)).takeWhile (· ≠ 0)

/-- One line of the list. -/
def traceLine (event : List UInt8) : List Print :=
  [.literal " > " colorWhite, .string event colorLightGreen, .char 10]

def traceHeader : Print := .literal "--- RECENT INTERNAL KERNEL EVENTS ---\n" colorLightCyan

/-- The branch for `trace`. -/
def traceCommand (t : TraceRing) : List Print :=
  let start := if t.idx.val < t.count then 0 else t.idx.val
  traceHeader :: (List.range t.count).flatMap fun i =>
    traceLine (t.text ⟨(start + i) % traceMax, Nat.mod_lt _ (by decide)⟩)

/-! ## The ring as a log -/

/-- What `sys_trace` keeps of an event. -/
def CString.traced (event : CString) : List UInt8 := event.chars.take 63

def TraceRing.log (t : TraceRing) : Log (List UInt8) 11 := ⟨t.text, t.idx⟩

theorem CString.length_traced (event : CString) :
    event.traced.length = min event.chars.length 63 := by
  rw [CString.traced, List.length_take, Nat.min_comm]

/-- The slot that is written holds the characters, a NUL and what was behind them. -/
theorem sysTrace_slot (t : TraceRing) (event : CString) :
    List.ofFn ((sysTrace t event).ring t.idx) =
      event.traced ++ 0 :: (List.ofFn (t.ring t.idx)).drop (event.traced.length + 1) := by
  have hlen := event.length_traced
  refine List.ext_getElem ?_ fun j hj _ => ?_
  · simp only [List.length_append, List.length_cons, List.length_drop, List.length_ofFn]
    omega
  · rw [List.getElem_ofFn]
    simp only [sysTrace, if_true, ← hlen]
    rcases Nat.lt_trichotomy j event.traced.length with hlt | rfl | hgt
    · rw [if_pos hlt, List.getElem_append_left hlt]
      have hlt' : j < event.chars.length := by omega
      rw [List.getD_eq_getElem _ _ hlt']
      exact (List.getElem_take ..).symm
    · rw [if_neg (Nat.lt_irrefl _), if_pos rfl, List.getElem_append_right (Nat.le_refl _)]
      simp
    · rw [if_neg (by omega), if_neg (by omega), List.getElem_append_right (by omega),
        List.getElem_cons]
      rw [dif_neg (by omega), List.getElem_drop, List.getElem_ofFn]
      congr 2
      omega

theorem sysTrace_text (t : TraceRing) (event : CString) :
    (sysTrace t event).text = Function.update t.text t.idx event.traced := by
  funext k
  rcases eq_or_ne k t.idx with rfl | hne
  · rw [Function.update_self, TraceRing.text, sysTrace_slot]
    exact takeWhile_terminated fun c hc => event.nulFree c (List.mem_of_mem_take hc)
  · rw [Function.update_of_ne hne, TraceRing.text, TraceRing.text]
    simp only [sysTrace, if_neg hne]

theorem log_sysTrace (t : TraceRing) (event : CString) :
    (sysTrace t event).log = push t.log event.traced := by
  rw [TraceRing.log, sysTrace_text, push]
  congr 1

/-- The ring after the events. -/
theorem log_traced (t : TraceRing) (events : List CString) :
    (events.foldl sysTrace t).log = (events.map CString.traced).foldl push t.log := by
  induction events generalizing t with
  | nil => rfl
  | cons event events ih => rw [List.foldl_cons, ih, log_sysTrace, List.map_cons, List.foldl_cons]

theorem count_traced (t : TraceRing) (h : t.count ≤ 12) (events : List CString) :
    (events.foldl sysTrace t).count = min (t.count + events.length) 12 := by
  induction events generalizing t with
  | nil => exact (Nat.min_eq_left h).symm
  | cons event events ih =>
    have hstep : (sysTrace t event).count = min (t.count + 1) 12 := by
      show (if t.count < 12 then t.count + 1 else t.count) = _
      rcases Nat.lt_or_ge t.count 12 with hlt | hge
      · rw [if_pos hlt, Nat.min_eq_left hlt]
      · rw [if_neg (by omega)]
        omega
    rw [List.foldl_cons, ih _ (by omega), hstep, List.length_cons]
    omega

/-! ## The list -/

/-- The events that the ring still has to show: the last twelve, cut. -/
def lastEvents (events : List CString) : List (List UInt8) :=
  (events.map CString.traced).drop (events.length - 12)

/-- Printing starts with the wrong slot, but finds the same strings: the events are turned by
a multiple of their period, or there are only empty ones. -/
def TurnsInPlace (events : List CString) : Prop :=
  if events.length < 12 then ∀ event, event ∈ events → event.chars = []
  else (lastEvents events).rotate (events.length % 12) = lastEvents events

theorem traceLines_injective {es es' : List (List UInt8)}
    (h : es.flatMap traceLine = es'.flatMap traceLine) : es = es' := by
  induction es generalizing es' with
  | nil =>
    cases es' with
    | nil => rfl
    | cons e' es' => simp [traceLine] at h
  | cons e es ih =>
    cases es' with
    | nil => simp [traceLine] at h
    | cons e' es' =>
      simp only [List.flatMap_cons, traceLine, List.cons_append, List.nil_append, List.cons.injEq,
        Print.string.injEq, true_and, and_true] at h
      rw [h.1, ih h.2]

/-- The strings in the order in which the command prints them. -/
def TraceRing.shown (t : TraceRing) : List (List UInt8) :=
  if t.idx.val < t.count then (List.ofFn t.text).take t.count else (window t.log).take t.count

theorem traceCommand_eq (t : TraceRing) (h : t.count ≤ 12) :
    traceCommand t = traceHeader :: t.shown.flatMap traceLine := by
  have hslots : ∀ start : Fin 12, (List.range t.count).flatMap (fun i =>
      traceLine (t.text ⟨(start.val + i) % traceMax, Nat.mod_lt _ (by decide)⟩)) =
        ((List.ofFn fun i => t.text (start + i)).take t.count).flatMap traceLine := by
    intro start
    have htake : (List.ofFn fun i => t.text (start + i)).take t.count = (List.range t.count).map
        fun i => t.text ⟨(start.val + i) % traceMax, Nat.mod_lt _ (by decide)⟩ := by
      refine List.ext_getElem (by simp [h]) fun i hi _ => ?_
      rw [List.getElem_take, List.getElem_ofFn, List.getElem_map, List.getElem_range]
      rfl
    rw [htake, List.flatMap_map]
  rw [traceCommand, TraceRing.shown]
  split
  · have hzero := hslots 0
    simp only [zero_add] at hzero
    exact congrArg _ hzero
  · exact congrArg _ (hslots t.idx)

/-- Strings that stay the same when empty ones are put in front are empty. -/
theorem eq_nil_of_shifted {es : List (List UInt8)} {m : Nat} (hm : 0 < m)
    (h : (List.replicate m [] ++ es).take es.length = es) {e : List UInt8} (he : e ∈ es) :
    e = [] := by
  have hall : ∀ i (hi : i < es.length), es[i] = [] := by
    intro i
    induction i using Nat.strong_induction_on with
    | _ i ih =>
      intro hi
      have hlt : i < (List.replicate m [] ++ es).length := by
        rw [List.length_append]
        omega
      have hget : es[i] = (List.replicate m [] ++ es)[i] := by
        conv_lhs => rw [← List.getElem_of_eq h (by simpa using hi)]
        exact List.getElem_take
      rw [hget, List.getElem_append]
      split
      · exact List.getElem_replicate _
      · next hge =>
        rw [List.length_replicate] at hge
        exact ih _ (by simp; omega) (by simp; omega)
  obtain ⟨i, hi, rfl⟩ := List.getElem_of_mem he
  exact hall i hi

theorem shown_filling {t : TraceRing} {es : List (List UInt8)} (hlt : es.length < 12)
    (hidx : t.idx.val = es.length) (hcount : t.count = es.length)
    (hwindow : window t.log = List.replicate (12 - es.length) [] ++ es) :
    t.shown = es ↔ ∀ e, e ∈ es → e = [] := by
  rw [TraceRing.shown, hidx, hcount, if_neg (Nat.lt_irrefl _), hwindow]
  constructor
  · intro h e he
    exact eq_nil_of_shifted (by omega) h he
  · intro h
    have hes : es = List.replicate es.length [] := List.eq_replicate_of_mem h
    rw [hes]
    simp only [List.length_replicate, List.replicate_append_replicate, List.take_replicate]
    congr 1
    omega

theorem shown_full {t : TraceRing} (hcount : t.count = 12) :
    t.shown = window t.log ↔ (window t.log).rotate t.idx.val = window t.log := by
  have hturn : window t.log = (List.ofFn t.text).rotate t.idx.val := window_eq_rotate t.log
  have htake : (List.ofFn t.text).take 12 = List.ofFn t.text :=
    List.take_of_length_le (by rw [List.length_ofFn])
  rw [TraceRing.shown, hcount, if_pos t.idx.isLt, htake]
  constructor
  · intro h
    rw [← h, ← hturn, h]
  · intro h
    rw [hturn] at h
    rw [hturn]
    exact (List.rotate_injective _ h).symm

theorem window_empty : window TraceRing.empty.log = List.replicate 12 [] := by
  decide +kernel

/-- The command prints the last twelve events, cut and from the oldest on, exactly for the
events that are turned in place. -/
theorem trace_command_iff (events : List CString) :
    traceCommand (events.foldl sysTrace .empty) =
        traceHeader :: (lastEvents events).flatMap traceLine ↔
      TurnsInPlace events := by
  have hcount := count_traced .empty (Nat.zero_le 12) events
  have hlog := log_traced .empty events
  generalize events.foldl sysTrace .empty = t at hcount hlog ⊢
  have hidx : t.idx.val = events.length % 12 := by
    have hnext := next_pushAll TraceRing.empty.log (events.map CString.traced)
    rw [← hlog, List.length_map] at hnext
    exact hnext.trans (congrArg (· % 12) (Nat.zero_add _))
  have hwindow : window t.log =
      (List.replicate 12 [] ++ events.map CString.traced).drop events.length := by
    rw [hlog, window_pushAll, window_empty, List.length_map]
  have hshown : traceCommand t = traceHeader :: (lastEvents events).flatMap traceLine ↔
      t.shown = lastEvents events := by
    rw [traceCommand_eq t (by omega), List.cons.injEq]
    exact ⟨fun h => traceLines_injective h.2, fun h => ⟨rfl, by rw [h]⟩⟩
  have hzero : TraceRing.empty.count = 0 := rfl
  rw [hshown, TurnsInPlace]
  split
  next hlt =>
    -- the ring is not full, and printed from the first empty slot on
    have hlast : lastEvents events = events.map CString.traced := by
      rw [lastEvents, Nat.sub_eq_zero_of_le (Nat.le_of_lt hlt)]
      rfl
    have hlen : (lastEvents events).length = events.length := by rw [hlast, List.length_map]
    rw [shown_filling (by omega) (by omega) (by omega), hlast, List.forall_mem_map]
    · refine forall₂_congr fun event _ => ?_
      rw [CString.traced, List.take_eq_nil_iff]
      simp
    · rw [hwindow, hlast, List.drop_append_of_le_length (by simp; omega), List.drop_replicate,
        List.length_map]
  next hge =>
    -- the ring is full, and printed from its first slot on
    have hlast : window t.log = lastEvents events := by
      rw [hwindow, lastEvents, List.drop_append, List.drop_eq_nil_of_le (by simp; omega),
        List.length_replicate]
      rfl
    rw [← hlast, ← hidx]
    exact shown_full (by omega)

/-- The first event is not shown. -/
theorem first_event_not_shown :
    traceCommand (sysTrace .empty (.ofLiteral "mount")) =
        traceHeader :: traceLine [] ∧
      traceCommand ([.ofLiteral "mount"].foldl sysTrace .empty) ≠
        traceHeader :: (lastEvents [.ofLiteral "mount"]).flatMap traceLine := by
  decide +kernel

end Newrex
