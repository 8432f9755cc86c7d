import Newrex.Hal.Idt
import Newrex.Lib.Handlers

/-!
# The kernel's interrupts

The handlers behind the gates, as far as they concern the controllers and the interrupt flag:
`timer_isr_handler` and `mouse_isr_handler` of `kernel/kernel.c`, `keyboard_isr_handler`,
`rtl8139_isr_handler`, `syscall_handler` and `default_isr_handler`, with their entries in
`boot/boot.asm`. The system starts behind the `sti` of `kernel_main`. The card has a line of its
own. Machine code that is loaded at run time (`daemon`, `inject`) is not part of the system.

* `interrupts_open`: in all runs of the kernel nothing is in service while interrupts are enabled,
  and the pending line of the highest priority gets its own handler, never the default one;
* `interrupts_reopen`: as long as the handlers return, interrupts are disabled for at most five
  actions in a row;
* `mouse_nesting`: `mouse_isr_handler` enables interrupts, so that the handlers that wait can fill
  every stack, and the next one is taken beyond its end;
* `halted_for_ever`: a handler that halts stops the system. With the window manager, commands run
  in the handler of the keyboard, and those that wait for a tick wait for ever.
-/

namespace Newrex

open Handlers Pic PortIO

/-- The ways through the handlers. The stack of another task is taken on in the last part of
`timer_isr_asm`, which is behind the end of the interrupt. -/
def Isr.program : Isr → List (List Action)
  | default => [[.work, .disable, .halt]]
  | timer => [[.work, .eoiMaster, .switch, .leave]]
  -- In the window manager `gui_handle_char` executes commands. Those that wait for the next tick
  -- (`monitor`, `watch`, `exec`, `vgamode`) or poll a device in vain never end, nor does `panic`.
  | keyboard => [[.eoiMaster, .work, .leave], [.eoiMaster, .work, .halt],
      [.eoiMaster, .work, .disable, .work, .halt]]
  -- A click on the panic area calls `kernel_panic`.
  | mouse => [[.eoiSlave, .eoiMaster, .enable, .work, .leave],
      [.eoiSlave, .eoiMaster, .enable, .work, .disable, .work, .halt]]
  | syscall => [[.work, .switch, .leave]]
  -- `rtl8139_transmit` polls the card.
  | rtl8139 => [[.work, .eoiMaster, .eoiSlave, .leave], [.work, .halt]]

/-- The card's handler works for a line of the master and for one of the slave. -/
theorem rtl8139_ends (l : Line) {as : List Action} (has : as ∈ Isr.rtl8139.program) :
    Handlers.Ends l as ∨ halts as = true := by
  have hends : ∀ as, as ∈ Isr.rtl8139.program →
      (.eoiMaster ∈ closed as ∧ .eoiSlave ∈ closed as) ∨ halts as = true := by decide
  refine (hends as has).imp (fun h => ?_) id
  cases l with
  | master => exact h.1
  | slave => exact h

/-- `code` is what the memory holds at the addresses of the gates. -/
def kernelTable (code : UInt32 → List (List Action)) (idt : Idt) : Table where
  program v := code (idt v).offset
  gate v := (idt v).dpl == 3

section

variable {τ : Type} [DecidableEq τ] {address : Isr → UInt32} {code : UInt32 → List (List Action)}
  (hcode : ∀ isr, code (address isr) = isr.program) {base : UInt32} {idt idt' : Idt}
  {nic : Option UInt8} (hnic : ∀ irq, irq ∈ nic → irq ∈ cardLines) {p p' : Pair} {r : IdtPtr}
  (hboot : Ends Pair.device (initInterrupts address base idt nic) p (p', r, idt'))
include hcode hnic hboot

/-- Every gate leads to the handler of its vector. -/
theorem program_eq (v : UInt8) : (kernelTable code idt').program v = (isrOf nic v).program := by
  have hline (irq : UInt8) (hirq : irq ∈ nic) := card_lt (hnic irq hirq)
  cases hboot.unique (initInterrupts_ends address base idt hline p)
  have hoffset := (bootedIdt_gated address idt hline v).1.1
  exact (congrArg code hoffset).trans (hcode _)

omit [DecidableEq τ] hcode in
/-- The line has a handler of its own. -/
theorem isr_of_unmasked {l : Line} (hl : p'.Unmasked l) :
    isrOf nic (p'.vector l) ≠ .default ∧ ∀ as, as ∈ (isrOf nic (p'.vector l)).program →
      Handlers.Ends l as ∨ halts as = true := by
  cases hboot.unique (initInterrupts_ends address base idt
    (fun irq hirq => card_lt (hnic irq hirq)) p)
  obtain ⟨htimer, hkeyboard, hmouse, hcard⟩ := isrOf_vector hnic
  rcases (unmasked_iff hnic l).mp hl with rfl | rfl | rfl | ⟨irq, hirq, rfl⟩
  · rw [htimer]
    decide
  · rw [hkeyboard]
    decide
  · rw [hmouse]
    decide
  · rw [hcard irq hirq]
    exact ⟨nofun, fun as => rtl8139_ends _⟩

omit [DecidableEq τ] hcode hboot in
/-- The vectors of the exceptions keep the default handler. -/
theorem isr_of_exception {v : UInt8} (hv : v < 32) : isrOf nic v = .default := by
  have hkernel : kernelIsr v = .default := by
    have hne (w : UInt8) (hw : 32 ≤ w) : v ≠ w := fun h => absurd (h ▸ hw) (UInt8.not_le.mpr hv)
    rw [kernelIsr, if_neg (hne 32 (by decide)), if_neg (hne 33 (by decide)),
      if_neg (hne 44 (by decide)), if_neg (hne 128 (by decide))]
  cases nic with
  | none => exact hkernel
  | some irq =>
    have hcard : ∀ irq, irq ∈ cardLines → ¬ 32 + irq < 32 := by decide +kernel
    refine (if_neg fun h => ?_).trans hkernel
    rw [h] at hv
    exact hcard irq (hnic irq rfl) hv

theorem kernel_proper : Proper (kernelTable code idt') p' where
  lines := by
    intro l hl as has
    rw [program_eq hcode hnic hboot] at has
    exact (isr_of_unmasked hnic hboot hl).2 as has
  faults := by
    intro v hv as has
    rw [program_eq hcode hnic hboot, isr_of_exception hnic hv] at has
    cases List.mem_singleton.mp has
    rfl

theorem kernel_brief : Brief (kernelTable code idt') p' 5 := by
  have hisr : ∀ isr : Isr, ∀ as, as ∈ isr.program → returns as = true → as.length ≤ 5 := by
    intro isr
    cases isr with
    | default => decide
    | timer => decide
    | keyboard => decide
    | mouse => decide
    | syscall => decide
    | rtl8139 => decide
  refine ⟨fun l _ as has => ?_, fun v _ as has => ?_, by decide⟩
  · rw [program_eq hcode hnic hboot] at has
    exact hisr _ as has
  · rw [program_eq hcode hnic hboot] at has
    exact hisr _ as has

omit [DecidableEq τ] hcode in
theorem booted : p'.Idle ∧ p'.wired = true ∧ ∀ l, p'.requested l = false := by
  cases hboot.unique (initInterrupts_ends address base idt
    (fun irq hirq => card_lt (hnic irq hirq)) p)
  have hwiring : ((0x04 : UInt8).toNat.testBit 2 && (0x02 : UInt8).toNat == 2) = true := by decide
  refine ⟨⟨fun _ => rfl, fun _ => rfl⟩, hwiring, fun l => ?_⟩
  cases l with
  | master => rfl
  | slave => rfl

variable {room : τ → Nat} {s : State τ}

/-- In all runs of the kernel whose stacks are large enough, nothing is in service while interrupts
are enabled. The handler of the pending line of the highest priority is the next to start, and it
is one of the line's own. -/
theorem interrupts_open (hs : (Fitting (kernelTable code idt') p' room).Reachable s)
    (hflag : s.interruptFlag = true) :
    s.pic.Idle ∧ ∀ l, s.pic.Pending l → ∃ l' isr, s.pic.Foremost l' ∧
      isrOf nic (p'.vector l') = isr ∧ isr ≠ .default ∧ ∀ as,
        (Allowed (kernelTable code idt') s (.accept as) ↔ as ∈ isr.program) ∧
        step s (.accept as) = { s with pic := s.pic.accepted l' }.enter as := by
  obtain ⟨hidle, hwired, -⟩ := booted hnic hboot
  have hproper := kernel_proper hcode hnic hboot
  have hreach := hs.of_restrict
  obtain ⟨hopen, haccept, -⟩ := open_of_reachable hidle hwired hproper hreach hflag
  refine ⟨hopen, fun l hl => ?_⟩
  obtain ⟨l', hforemost, hways⟩ := haccept ⟨l, hl⟩
  have hsettings := (sound_of_reachable hidle hwired hproper hreach).settings
  have hunmasked := (Pair.unmasked_congr hsettings l').mp hforemost.1.2
  refine ⟨l', _, hforemost, rfl, (isr_of_unmasked hnic hboot hunmasked).1, fun as => ?_⟩
  rw [← program_eq hcode hnic hboot]
  exact hways as

/-- In all runs of the kernel whose handlers return and whose stacks are large enough, the handlers
have a next action as long as interrupts are disabled, and enable them after at most five
actions. -/
theorem interrupts_reopen (hs : (Smooth (kernelTable code idt') p' room).Reachable s) :
    (s.interruptFlag = false → ∃ t, Allowed (kernelTable code idt') s (.act t)) ∧
      ∀ es, (Smooth (kernelTable code idt') p' room).IsRun s es → 5 ≤ acts es →
        ∃ pre, pre <+: es ∧ (pre.foldl step s).interruptFlag = true := by
  obtain ⟨hidle, hwired, -⟩ := booted hnic hboot
  obtain ⟨hnext, hopens⟩ := reopens hidle hwired (kernel_proper hcode hnic hboot)
    (kernel_brief hcode hnic hboot) (hs.restrict_mono fun _ _ h => h.2)
  exact ⟨hnext, fun es hes => hopens es (hes.restrict_mono fun _ _ h => h.2)⟩

/-- A handler that halts before it lets anything else in stops the system. This is what a command
of the window manager does that waits for a tick: the tick is never let in. -/
theorem command_waits_for_ever {as : List Action} (hallowed : Allowed (kernelTable code idt') s
    (.accept as)) (hhalts : halts as = true) {es : List (Event τ)}
    (hes : (Machine (kernelTable code idt') p').IsRun (step s (.accept as)) es) :
    (es.foldl step (step s (.accept as))).interruptFlag = false := by
  obtain ⟨-, v, pic, hack, -⟩ := hallowed
  have hstep : step s (.accept as) = { s with pic := pic }.enter as := by rw [step, hack]
  rw [hstep] at hes ⊢
  exact never_reopens (kernel_proper hcode hnic hboot).faults (stopped_enter _ hhalts) hes

/-! ## The stack -/

/-- The mouse interrupts when no other line asks for an interrupt. -/
theorem mouse_accepted (hs : (Fitting (kernelTable code idt') p' room).Reachable s)
    (hflag : s.interruptFlag = true) (hcalm : ∀ l, s.pic.requested l = false) (as : List Action) :
    let s' := step s (.request (.slave 4))
    (Fitting (kernelTable code idt') p' room).Reachable s' ∧
      (Allowed (kernelTable code idt') s' (.accept as) ↔ as ∈ Isr.mouse.program) ∧
      step s' (.accept as) = { s' with pic := s'.pic.accepted (.slave 4) }.enter as ∧
      ∀ l, (s'.pic.accepted (.slave 4)).requested l = false := by
  intro s'
  have hreq : (Fitting (kernelTable code idt') p' room).Reachable s' :=
    reachable_step hs (.request (.slave 4)) trivial fun t => fits_of_reachable hs t
  have hrequested (l : Line) : s'.pic.requested l = decide (l = .slave 4) :=
    (Pair.requested_request ..).trans (by rw [hcalm, Bool.or_false])
  obtain ⟨hidle, hwired, -⟩ := booted hnic hboot
  have hproper := kernel_proper hcode hnic hboot
  have hsettings := (sound_of_reachable hidle hwired hproper hreq.of_restrict).settings
  obtain ⟨hunmasked, hmouse⟩ : p'.Unmasked (.slave 4) ∧
      isrOf nic (p'.vector (.slave 4)) = .mouse := by
    cases hboot.unique (initInterrupts_ends address base idt
      (fun irq hirq => card_lt (hnic irq hirq)) p)
    exact ⟨(unmasked_iff hnic _).mpr (.inr (.inr (.inl rfl))), (isrOf_vector hnic).2.2.1⟩
  obtain ⟨-, hnext, -⟩ := open_of_reachable hidle hwired hproper hreq.of_restrict hflag
  obtain ⟨l', hforemost, haccept⟩ := hnext ⟨.slave 4, (hrequested _).trans (decide_eq_true rfl),
    (Pair.unmasked_congr hsettings _).mpr hunmasked⟩
  cases of_decide_eq_true ((hrequested l').symm.trans hforemost.1.1)
  rw [program_eq hcode hnic hboot, hmouse] at haccept
  refine ⟨hreq, (haccept as).1, (haccept as).2, fun l => Bool.eq_false_iff.mpr fun h => ?_⟩
  obtain ⟨hl, hne⟩ := Pair.requested_accepted h
  exact hne (of_decide_eq_true ((hrequested l).symm.trans hl))

/-- The handler of the mouse stops in front of the work that it does with interrupts enabled, if
the stack has room for it. -/
theorem mouse_enters (hs : (Fitting (kernelTable code idt') p' room).Reachable s)
    (hflag : s.interruptFlag = true) (hcalm : ∀ l, s.pic.requested l = false)
    (hroom : (s.frames s.current).length < room s.current) :
    ∃ s' : State τ, (Fitting (kernelTable code idt') p' room).Reachable s' ∧
      s'.interruptFlag = true ∧ (∀ l, s'.pic.requested l = false) ∧ s'.current = s.current ∧
      s'.frames s.current = ⟨[.work, .leave], true⟩ :: s.frames s.current := by
  obtain ⟨hreq, hallowed, haccept, hcalm'⟩ := mouse_accepted hcode hnic hboot hs hflag hcalm
    [.eoiSlave, .eoiMaster, .enable, .work, .leave]
  have hfits : Fits room (step (step s (.request (.slave 4)))
      (.accept [.eoiSlave, .eoiMaster, .enable, .work, .leave])) := by
    rw [haccept]
    exact Fits.enter (s := { s with pic := _ }) (fits_of_reachable hs) hroom _
  have hentered := haccept ▸ reachable_step hreq _ (hallowed.mpr List.mem_cons_self) hfits
  have hslave := reachable_act hentered (Function.update_self ..) (by decide)
  have hmaster := reachable_act hslave (Function.update_self ..) (by decide)
  have henable := reachable_act hmaster (Function.update_self ..) (by decide)
  refine ⟨_, henable, rfl, fun l => ?_, rfl, ?_⟩
  · exact (Pair.requested_eoiMaster _ l).trans ((Pair.requested_eoiSlave _ l).trans (hcalm' l))
  · refine (Function.update_self ..).trans ?_
    exact congrArg (fun flag => (⟨[.work, .leave], flag⟩ : Handlers.Frame) ::
      s.frames s.current) hflag

/-- As many handlers of the mouse as the stack has room for can wait on it with interrupts enabled,
and the next one is taken all the same: the stack overflows. -/
theorem mouse_nesting (t : τ) (room : τ → Nat) {n : Nat} (hn : n ≤ room t) : ∃ s : State τ,
    (Fitting (kernelTable code idt') p' room).Reachable s ∧ s.interruptFlag = true ∧
      s.current = t ∧ (s.frames t).length = n ∧ ∀ as, as ∈ Isr.mouse.program →
        let es : List (Event τ) := [.request (.slave 4), .accept as]
        (Machine (kernelTable code idt') p').IsRun s es ∧
          ((es.foldl step s).frames t).length = n + 1 := by
  have hwaiting : ∃ s : State τ, (Fitting (kernelTable code idt') p' room).Reachable s ∧
      s.interruptFlag = true ∧ (∀ l, s.pic.requested l = false) ∧ s.current = t ∧
      (s.frames t).length = n := by
    induction n with
    | zero =>
      refine ⟨⟨p', true, t, fun _ => []⟩, .init ⟨rfl, rfl, fun _ => rfl⟩, rfl, ?_, rfl, rfl⟩
      exact (booted hnic hboot).2.2
    | succ n ih =>
      obtain ⟨s, hs, hflag, hcalm, rfl, hlength⟩ := ih (Nat.le_of_succ_le hn)
      obtain ⟨s', hs', hflag', hcalm', hcurrent, hframes⟩ :=
        mouse_enters hcode hnic hboot hs hflag hcalm (hlength ▸ hn)
      refine ⟨s', hs', hflag', hcalm', hcurrent, ?_⟩
      rw [hframes, List.length_cons, hlength]
  obtain ⟨s, hs, hflag, hcalm, rfl, hlength⟩ := hwaiting
  refine ⟨s, hs, hflag, rfl, hlength, fun as has => ?_⟩
  obtain ⟨-, hallowed, haccept, -⟩ := mouse_accepted hcode hnic hboot hs hflag hcalm as
  refine ⟨TransitionSystem.isRun_cons.mpr ⟨trivial, TransitionSystem.isRun_cons.mpr
    ⟨hallowed.mpr has, TransitionSystem.isRun_nil⟩⟩, ?_⟩
  rw [List.foldl_cons, List.foldl_cons, List.foldl_nil, haccept, ← hlength]
  exact congrArg List.length (State.enter_frames { s with pic := _ } as)

end

/-! ## A kernel with a card on line 11 -/

def pcAddress : Isr → UInt32
  | .default => 0x100000
  | .timer => 0x100100
  | .keyboard => 0x100200
  | .mouse => 0x100300
  | .syscall => 0x100400
  | .rtl8139 => 0x100500

def pcCode (a : UInt32) : List (List Action) :=
  if a = 0x100100 then Isr.timer.program
  else if a = 0x100200 then Isr.keyboard.program
  else if a = 0x100300 then Isr.mouse.program
  else if a = 0x100400 then Isr.syscall.program
  else if a = 0x100500 then Isr.rtl8139.program
  else Isr.default.program

theorem pcCode_address (isr : Isr) : pcCode (pcAddress isr) = isr.program := by
  cases isr <;> rfl

theorem pcNic : ∀ irq, irq ∈ some (11 : UInt8) → irq ∈ cardLines := by
  intro irq hirq
  cases hirq
  decide

def pcIdt : Idt := bootedIdt pcAddress (fun _ => ⟨0, 0, 0, 0, 0⟩) (some 11)

def pcPair : Pair := configured (masks (some 11)).1 (masks (some 11)).2

theorem pcBoot : Ends Pair.device
    (initInterrupts pcAddress 0x200000 (fun _ => ⟨0, 0, 0, 0, 0⟩) (some 11)) (configured 0 0)
    (pcPair, ⟨2047, 0x200000⟩, pcIdt) :=
  initInterrupts_ends pcAddress 0x200000 _ (fun irq hirq => card_lt (pcNic irq hirq)) _

/-- How many handlers `stack_space` of `boot.asm` can hold: each takes the frame of the processor,
`pushad`, four segment registers and the return address of the call. -/
def bootRoom : Nat := 8192 / (12 + 32 + 16 + 4)

/-- A device has asked for an interrupt. -/
def pcState (l : Line) : State Unit := ⟨pcPair.request l, true, (), fun _ => []⟩

theorem pcState_reachable (l : Line) :
    (Smooth (kernelTable pcCode pcIdt) pcPair fun _ => bootRoom).Reachable (pcState l) := by
  have hinit : (Smooth (kernelTable pcCode pcIdt) pcPair fun _ => bootRoom).init
      (⟨pcPair, true, (), fun _ => []⟩ : State Unit) := ⟨rfl, rfl, fun _ => rfl⟩
  exact reachable_step (.init hinit) (.request l) trivial ⟨fun _ => Nat.zero_le _, trivial⟩

/-- The handler of the card can start, and no other. -/
theorem interrupts_open_sample :
    (pcState (.slave 3)).pic.Idle ∧ ∀ as,
      Allowed (kernelTable pcCode pcIdt) (pcState (.slave 3)) (.accept as) ↔
        as ∈ Isr.rtl8139.program := by
  have hunmasked : pcPair.Unmasked (.slave 3) := by decide
  have hrequested (l : Line) : (pcState (.slave 3)).pic.requested l = decide (l = .slave 3) := by
    rw [pcState, Pair.requested_request, (booted pcNic pcBoot).2.2, Bool.or_false]
  obtain ⟨hopen, hnext⟩ := interrupts_open pcCode_address pcNic pcBoot
    ((pcState_reachable (.slave 3)).restrict_mono fun _ _ h => h.1) rfl
  obtain ⟨l', isr, hforemost, hisr, -, haccept⟩ :=
    hnext (.slave 3) ⟨(hrequested _).trans (decide_eq_true rfl), hunmasked⟩
  cases of_decide_eq_true ((hrequested l').symm.trans hforemost.1.1)
  have hrtl : isrOf (some 11) (pcPair.vector (.slave 3)) = .rtl8139 := by decide
  cases hisr.symm.trans hrtl
  exact ⟨hopen, fun as => (haccept as).1⟩

/-- The handler of the card runs. -/
theorem interrupts_reopen_sample :
    let s := step (pcState (.slave 3)) (.accept [.work, .eoiMaster, .eoiSlave, .leave])
    s.interruptFlag = false ∧ ∀ es,
      (Smooth (kernelTable pcCode pcIdt) pcPair fun _ => bootRoom).IsRun s es → 5 ≤ acts es →
        ∃ pre, pre <+: es ∧ (pre.foldl step s).interruptFlag = true := by
  have hreach := reachable_step (pcState_reachable (.slave 3))
    (.accept [.work, .eoiMaster, .eoiSlave, .leave]) ⟨rfl, 43, _, rfl, by decide⟩
    ⟨fun () => by decide, rfl⟩
  exact ⟨rfl, (interrupts_reopen pcCode_address pcNic pcBoot hreach).2⟩

/-- 128 handlers of the mouse fill the stack, and there is a 129th. -/
theorem mouse_nesting_sample : ∃ s : State Unit,
    (Fitting (kernelTable pcCode pcIdt) pcPair fun _ => bootRoom).Reachable s ∧
      (s.frames ()).length = 128 ∧ ∃ es, (Machine (kernelTable pcCode pcIdt) pcPair).IsRun s es ∧
        ¬ Fits (fun _ => bootRoom) (es.foldl step s) := by
  obtain ⟨s, hs, -, -, hlength, hnext⟩ :=
    mouse_nesting pcCode_address pcNic pcBoot () (fun _ => bootRoom) (Nat.le_refl 128)
  obtain ⟨hrun, hover⟩ := hnext _ List.mem_cons_self
  refine ⟨s, hs, hlength, _, hrun, fun hfits => ?_⟩
  have hle := hfits ()
  rw [hover] at hle
  exact absurd hle (by decide)

/-- `int 0x80` and `int 0x20` in a program of the lowest privilege. -/
theorem software_interrupt_sample :
    softwareInterrupt ⟨2047, 0x200000⟩ pcIdt 3 0x80 = some 0x100400 ∧
      ¬ ∃ a, softwareInterrupt ⟨2047, 0x200000⟩ pcIdt 3 0x20 = some a := by
  have hiff := software_interrupt_iff pcAddress 0x200000 _
    (fun irq hirq => card_lt (pcNic irq hirq)) pcBoot
  refine ⟨(hiff 0x80 _).mpr ⟨rfl, rfl⟩, ?_⟩
  rintro ⟨a, ha⟩
  exact absurd ((hiff 0x20 a).mp ha).1 (by decide)

end Newrex
