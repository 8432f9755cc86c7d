import Newrex.Console

/-!
# The event trace

`sys_trace` of `kernel/kernel.c` and its ring of the last twelve events.
-/

namespace Newrex

def traceMax : Nat := 12

/-- `trace_ring`, `trace_idx` and `trace_count`. -/
structure TraceRing where
  ring : Fin 12 → Fin 64 → UInt8
  idx : Fin 12
  count : Nat

/-- The trace at boot: static variables are zero. -/
def TraceRing.empty : TraceRing := ⟨fun _ _ => 0, 0, 0⟩

/-- `sys_trace`: at most 63 characters of the event and a NUL overwrite the start of
the slot; what was behind them in the slot stays. -/
def sysTrace (t : TraceRing) (event : CString) : TraceRing where
  ring := fun k j =>
    if k = t.idx then
      if j.val < min event.chars.length 63 then event.chars.getD j 0
      else if j.val = min event.chars.length 63 then 0
      else t.ring k j
    else t.ring k j
  idx := ⟨(t.idx.val + 1) % traceMax, Nat.mod_lt _ (by decide)⟩
  count := if t.count < traceMax then t.count + 1 else t.count

end Newrex
