import Newrex.Lib.Pic
import Newrex.Lib.Transition

/-!
# Interrupt handlers

A processor that takes interrupts from a pair of controllers. A handler has several ways through
it, each a list of actions. It starts with interrupts disabled, ends the interrupt at the
controllers, and may enable interrupts before it returns, so that handlers interrupt each other.
There are several tasks with a stack of handlers each, and a handler may switch to another task,
which returns from its own one. Code may also raise an exception, at any time.

`Ends l as` says that the way `as` ends the interrupt of the line `l` before it lets anything else
in; `halts as` that it halts before it does.

* `open_of_reachable`: if every way does one or the other, then in all runs nothing is in service
  while interrupts are enabled. No line is shut out, and the handler of the pending line of the
  highest priority is the next to start;
* `reopens`: in the runs whose handlers return, interrupts are not disabled for longer than the
  longest handler;
* `never_reopens`: a handler that halts before it lets anything else in halts for ever.
-/

namespace Handlers

open Pic

inductive Action
  /-- Something that touches neither the controllers nor the interrupt flag. -/
  | work
  | eoiMaster
  | eoiSlave
  /-- Interrupts are disabled. -/
  | disable
  /-- Interrupts are enabled. -/
  | enable
  /-- The stack of another task. -/
  | switch
  /-- The return from the handler, with the flags of the interrupted code. -/
  | leave
  /-- Nothing more is done: a halt with interrupts disabled, or a wait that never ends. -/
  | halt
deriving DecidableEq

/-- The actions that are left of a handler, with the interrupt flag of the interrupted code. -/
structure Frame where
  rest : List Action
  saved : Bool

structure State (τ : Type) where
  pic : Pair
  interruptFlag : Bool
  current : τ
  frames : τ → List Frame

/-- Where a handler starts, `as` is the way that it will go. -/
inductive Event (τ : Type)
  | request (l : Line)
  /-- The processor takes an interrupt. -/
  | accept (as : List Action)
  /-- The handler that runs does its next action. A switch goes to the task `t`. -/
  | act (t : τ)
  /-- A task is created. Its first frame looks like that of a handler in front of its return. -/
  | create (t : τ)
  /-- Code outside of handlers uses the instruction that starts the handler of a vector. -/
  | software (v : UInt8) (as : List Action)
  /-- The code that runs, in a handler or not, raises an exception. -/
  | fault (v : UInt8) (as : List Action)

/-- The handlers: the ways through that of a vector, and which vectors code outside of handlers may
use. -/
structure Table where
  program : UInt8 → List (List Action)
  gate : UInt8 → Bool

variable {τ : Type} [DecidableEq τ]

namespace State

def setStack (s : State τ) (t : τ) (frames : List Frame) : State τ :=
  { s with frames := Function.update s.frames t frames }

theorem setStack_frames (s : State τ) (t t' : τ) (frames : List Frame) :
    (s.setStack t frames).frames t' = if t' = t then frames else s.frames t' :=
  Function.update_apply ..

/-- A handler starts. -/
def enter (s : State τ) (as : List Action) : State τ :=
  { s.setStack s.current (⟨as, s.interruptFlag⟩ :: s.frames s.current) with interruptFlag := false }

theorem enter_frames (s : State τ) (as : List Action) :
    (s.enter as).frames s.current = ⟨as, s.interruptFlag⟩ :: s.frames s.current :=
  Function.update_self ..

/-- The next action `a` of the handler; `frame` is what is left, on top of `frames`. -/
def perform (s : State τ) (t : τ) (a : Action) (frame : Frame) (frames : List Frame) : State τ :=
  let s' := s.setStack s.current (frame :: frames)
  match a with
  | .work => s'
  | .eoiMaster => { s' with pic.master := s.pic.master.eoi }
  | .eoiSlave => { s' with pic.slave := s.pic.slave.eoi }
  | .disable => { s' with interruptFlag := false }
  | .enable => { s' with interruptFlag := true }
  | .switch => { s' with current := t }
  | .leave => { s.setStack s.current frames with interruptFlag := frame.saved }
  | .halt => s

end State

def step (s : State τ) : Event τ → State τ
  | .request l => { s with pic := s.pic.request l }
  | .accept as =>
    match s.pic.acknowledge with
    | some (_, pic) => { s with pic := pic }.enter as
    | none => s
  | .act t =>
    match s.frames s.current with
    | ⟨a :: rest, saved⟩ :: frames => s.perform t a ⟨rest, saved⟩ frames
    | _ => s
  | .create t => s.setStack t [⟨[.leave], true⟩]
  | .software _ as => s.enter as
  | .fault _ as => s.enter as

/-- A task other than the current one can be resumed: its handler is about to return. -/
def Resumable (s : State τ) (t : τ) : Prop :=
  t = s.current ∨ ∃ saved frames, s.frames t = ⟨[.leave], saved⟩ :: frames

/-- The handler that runs has halted. -/
def Halted (s : State τ) : Prop :=
  ∃ rest saved frames, s.frames s.current = ⟨.halt :: rest, saved⟩ :: frames

/-- What can happen. The vectors of the exceptions are those below 32. -/
def Allowed (T : Table) (s : State τ) : Event τ → Prop
  | .request _ => True
  | .accept as => s.interruptFlag = true ∧
      ∃ v pic, s.pic.acknowledge = some (v, pic) ∧ as ∈ T.program v
  | .act t => ∃ a rest saved frames, s.frames s.current = ⟨a :: rest, saved⟩ :: frames ∧
      a ≠ .halt ∧ (a = .switch → Resumable s t)
  | .create t => s.frames t = [] ∧ t ≠ s.current
  | .software v as => s.interruptFlag = true ∧ s.frames s.current = [] ∧ T.gate v = true ∧
      as ∈ T.program v
  | .fault v as => v < 32 ∧ as ∈ T.program v ∧ ¬ Halted s

/-- The system, from a state of the controllers on. -/
def Machine (T : Table) (start : Pair) : TransitionSystem (State τ) (Event τ) where
  init s := s.pic = start ∧ s.interruptFlag = true ∧ ∀ t, s.frames t = []
  allowed := Allowed T
  step := step

/-- No stack holds more handlers than there is room for. -/
def Fits (room : τ → Nat) (s : State τ) : Prop := ∀ t, (s.frames t).length ≤ room t

/-- The runs in which no stack overflows. -/
abbrev Fitting (T : Table) (start : Pair) (room : τ → Nat) : TransitionSystem (State τ) (Event τ) :=
  (Machine T start).restrict fun s e => Fits room (step s e)

/-- Only where a handler starts or a task is created a stack grows. -/
theorem Fits.act {room : τ → Nat} {s : State τ} (h : Fits room s) (t : τ) :
    Fits room (step s (.act t)) := by
  rw [step]
  split
  case h_2 => exact h
  case h_1 a rest saved frames hframes =>
    have hkept (frames' : List Frame) (hlength : frames'.length ≤ frames.length + 1) :
        Fits room (s.setStack s.current frames') := by
      intro t'
      rw [State.setStack_frames]
      split
      case isTrue ht =>
        have hfits := h s.current
        rw [hframes, List.length_cons] at hfits
        exact ht ▸ Nat.le_trans hlength hfits
      case isFalse => exact h t'
    have hset := hkept (⟨rest, saved⟩ :: frames) (Nat.le_refl _)
    cases a with
    | leave => exact hkept frames (Nat.le_succ _)
    | halt => exact h
    | work => exact hset
    | eoiMaster => exact hset
    | eoiSlave => exact hset
    | disable => exact hset
    | enable => exact hset
    | switch => exact hset

theorem Fits.enter {room : τ → Nat} {s : State τ} (h : Fits room s)
    (hroom : (s.frames s.current).length < room s.current) (as : List Action) :
    Fits room (s.enter as) := by
  intro t
  refine Nat.le_trans (Nat.le_of_eq (congrArg List.length (State.setStack_frames ..))) ?_
  split
  case isTrue ht => exact ht ▸ hroom
  case isFalse => exact h t

theorem fits_of_reachable {T : Table} {start : Pair} {room : τ → Nat} {s : State τ}
    (h : (Fitting T start room).Reachable s) : Fits room s := by
  induction h with
  | init hs =>
    intro t
    rw [hs.2.2 t]
    exact Nat.zero_le _
  | step _ ha => exact ha.2

theorem reachable_step {T : Table} {start : Pair} {P : State τ → Event τ → Prop} {s : State τ}
    (h : ((Machine T start).restrict P).Reachable s) (e : Event τ) (he : Allowed T s e)
    (hP : P s e) : ((Machine T start).restrict P).Reachable (step s e) :=
  TransitionSystem.Reachable.step (M := (Machine T start).restrict P) h ⟨he, hP⟩

theorem reachable_act {T : Table} {start : Pair} {room : τ → Nat} {s : State τ} {a : Action}
    {rest : List Action} {saved : Bool} {frames : List Frame}
    (h : (Fitting T start room).Reachable s)
    (hframes : s.frames s.current = ⟨a :: rest, saved⟩ :: frames) (hhalt : a ≠ .halt) :
    (Fitting T start room).Reachable (s.perform s.current a ⟨rest, saved⟩ frames) := by
  have hstep : step s (.act s.current) = s.perform s.current a ⟨rest, saved⟩ frames := by
    rw [step, hframes]
  rw [← hstep]
  exact reachable_step h (.act s.current)
    ⟨a, rest, saved, frames, hframes, hhalt, fun _ => .inl rfl⟩ ((fits_of_reachable h).act _)

/-! ## Handlers that end their interrupt -/

/-- Something else may happen behind the action. -/
def Action.opens : Action → Bool
  | enable | switch | leave | halt => true
  | _ => false

/-- What a handler does before it lets anything else in. -/
def closed (as : List Action) : List Action := as.takeWhile fun a => !a.opens

/-- The handler ends the interrupt of the line. -/
def Ends : Line → List Action → Prop
  | .master _, as => .eoiMaster ∈ closed as
  | .slave _, as => .eoiMaster ∈ closed as ∧ .eoiSlave ∈ closed as

instance (l : Line) (as : List Action) : Decidable (Ends l as) :=
  match l with
  | .master _ => inferInstanceAs (Decidable (_ ∈ _))
  | .slave _ => inferInstanceAs (Decidable (_ ∧ _))

/-- The handler halts before it lets anything else in. -/
def halts : List Action → Bool
  | [] => false
  | a :: as => if a.opens then a == .halt else halts as

/-- The interrupts that are in service will be ended by `as`. -/
structure Closing (p : Pair) (as : List Action) : Prop where
  master : p.master.Idle ∨ (∃ i, p.master.Serving i) ∧ .eoiMaster ∈ closed as
  slave : p.slave.Idle ∨ (∃ k, p.slave.Serving k) ∧ .eoiSlave ∈ closed as

theorem closing_of_idle {p : Pair} (h : p.Idle) (as : List Action) : Closing p as :=
  ⟨.inl h.1, .inl h.2⟩

/-- A handler that has been started for its own line. -/
theorem closing_accepted {p : Pair} (hidle : p.Idle) {l : Line} {as : List Action}
    (h : Ends l as) : Closing (p.accepted l) as := by
  cases l with
  | master i => exact ⟨.inr ⟨⟨i, hidle.1.accept i⟩, h⟩, .inl hidle.2⟩
  | slave k => exact ⟨.inr ⟨⟨2, hidle.1.accept 2⟩, h.1⟩, .inr ⟨⟨k, hidle.2.accept k⟩, h.2⟩⟩

theorem closed_cons {a : Action} (h : a.opens = false) (as : List Action) :
    closed (a :: as) = a :: closed as :=
  List.takeWhile_cons_of_pos (by rw [h, Bool.not_false])

theorem halts_tail {a : Action} {as : List Action} (hhalt : a ≠ .halt)
    (h : halts (a :: as) = true) : halts as = true := by
  rw [halts] at h
  split at h
  · exact absurd (beq_iff_eq.mp h) hhalt
  · exact h

namespace Closing

variable {p : Pair} {as : List Action}

/-- The handler has come to an action that lets something else in. -/
theorem idle (h : Closing p as) (has : closed as = []) : p.Idle := by
  refine ⟨h.master.elim id fun hm => ?_, h.slave.elim id fun hs => ?_⟩
  · rw [has] at hm
    cases hm.2
  · rw [has] at hs
    cases hs.2

/-- The other actions of the part in front. -/
theorem tail {a b : Action} (hab : b ≠ a) (ha : a.opens = false) (h : b ∈ closed (a :: as)) :
    b ∈ closed as := by
  rw [closed_cons ha] at h
  exact List.mem_of_ne_of_mem hab h

/-- An action that does not touch the controllers. -/
theorem skip {a : Action} (ha : a.opens = false) (hmaster : .eoiMaster ≠ a)
    (hslave : .eoiSlave ≠ a) (h : Closing p (a :: as)) : Closing p as :=
  ⟨h.master.imp id fun hm => ⟨hm.1, tail hmaster ha hm.2⟩,
    h.slave.imp id fun hs => ⟨hs.1, tail hslave ha hs.2⟩⟩

theorem eoiMaster (h : Closing p (.eoiMaster :: as)) :
    Closing { p with master := p.master.eoi } as := by
  refine ⟨.inl ?_, h.slave.imp id fun hs => ⟨hs.1, tail (by decide) rfl hs.2⟩⟩
  rcases h.master with hidle | ⟨⟨i, hi⟩, -⟩
  · exact hidle.idle_eoi
  · exact hi.eoi

theorem eoiSlave (h : Closing p (.eoiSlave :: as)) :
    Closing { p with slave := p.slave.eoi } as := by
  refine ⟨h.master.imp id fun hm => ⟨hm.1, tail (by decide) rfl hm.2⟩, .inl ?_⟩
  rcases h.slave with hidle | ⟨⟨k, hk⟩, -⟩
  · exact hidle.idle_eoi
  · exact hk.eoi

end Closing

/-! ## Frames -/

/-- All frames of all tasks have the property. -/
def AllFrames (F : Frame → Prop) (s : State τ) : Prop :=
  ∀ t frame, frame ∈ s.frames t → F frame

namespace AllFrames

variable {F : Frame → Prop} {s : State τ}

theorem setStack (h : AllFrames F s) (t : τ) {frames : List Frame}
    (hframes : ∀ frame, frame ∈ frames → F frame) : AllFrames F (s.setStack t frames) := by
  intro t' frame hmem
  rw [State.setStack_frames] at hmem
  split at hmem
  · exact hframes frame hmem
  · exact h t' frame hmem

theorem enter (h : AllFrames F s) {as : List Action} (has : F ⟨as, s.interruptFlag⟩) :
    AllFrames F (s.enter as) := by
  refine h.setStack s.current fun frame hmem => ?_
  rcases List.mem_cons.mp hmem with rfl | hmem
  · exact has
  · exact h _ _ hmem

/-- A handler that is left takes its frame with it; otherwise its frame gets shorter. -/
theorem perform (h : AllFrames F s) {t : τ} {a : Action} {rest : List Action} {saved : Bool}
    {frames : List Frame} (hframes : s.frames s.current = ⟨a :: rest, saved⟩ :: frames)
    (htail : F ⟨a :: rest, saved⟩ → a ≠ .leave → a ≠ .halt → F ⟨rest, saved⟩) :
    AllFrames F (s.perform t a ⟨rest, saved⟩ frames) := by
  have hmem (frame : Frame) (hframe : frame ∈ ⟨a :: rest, saved⟩ :: frames) : F frame :=
    h s.current frame (hframes ▸ hframe)
  have hpopped := h.setStack s.current fun frame hframe =>
    hmem frame (List.mem_cons_of_mem _ hframe)
  have hset (hleave : a ≠ .leave) (hhalt : a ≠ .halt) :
      AllFrames F (s.setStack s.current (⟨rest, saved⟩ :: frames)) :=
    h.setStack s.current fun frame hframe => by
      rcases List.mem_cons.mp hframe with rfl | hframe
      · exact htail (hmem _ List.mem_cons_self) hleave hhalt
      · exact hmem frame (List.mem_cons_of_mem _ hframe)
  cases a with
  | leave => exact hpopped
  | halt => exact h
  | work => exact hset nofun nofun
  | eoiMaster => exact hset nofun nofun
  | eoiSlave => exact hset nofun nofun
  | disable => exact hset nofun nofun
  | enable => exact hset nofun nofun
  | switch => exact hset nofun nofun

end AllFrames

/-! ## The invariant -/

/-- The handlers of the lines that come through end their interrupts or halt, and those of the
exceptions halt. -/
structure Proper (T : Table) (start : Pair) : Prop where
  lines : ∀ l, start.Unmasked l → ∀ as, as ∈ T.program (start.vector l) →
    Ends l as ∨ halts as = true
  faults : ∀ v, v < 32 → ∀ as, as ∈ T.program v → halts as = true

variable {T : Table} {start : Pair} {s : State τ}

/-- A handler that has not halted comes back with interrupts enabled. -/
def Saved (frame : Frame) : Prop := frame.saved = true ∨ halts frame.rest = true

/-- What is true of the handler that runs with interrupts disabled. -/
def Shut (p : Pair) (as : List Action) : Prop := Closing p as ∨ halts as = true

namespace Shut

variable {p : Pair} {a : Action} {as : List Action}

theorem skip (ha : a.opens = false) (hmaster : .eoiMaster ≠ a) (hslave : .eoiSlave ≠ a)
    (h : Shut p (a :: as)) : Shut p as :=
  h.imp (·.skip ha hmaster hslave) (halts_tail fun hhalt => by subst hhalt; cases ha)

theorem eoiMaster (h : Shut p (.eoiMaster :: as)) : Shut { p with master := p.master.eoi } as :=
  h.imp Closing.eoiMaster (halts_tail (by decide))

theorem eoiSlave (h : Shut p (.eoiSlave :: as)) : Shut { p with slave := p.slave.eoi } as :=
  h.imp Closing.eoiSlave (halts_tail (by decide))

/-- The handler has come to an action that lets something else in. -/
theorem idle (h : Shut p (a :: as)) (ha : a.opens = true) (hhalt : a ≠ .halt) : p.Idle := by
  rcases h with hclosing | hhalts
  · exact hclosing.idle (List.takeWhile_cons_of_neg (by rw [ha]; exact Bool.false_ne_true))
  · rw [halts, if_pos ha] at hhalts
    exact absurd (beq_iff_eq.mp hhalts) hhalt

end Shut

/-- The invariant. -/
structure Sound (start : Pair) (s : State τ) : Prop where
  settings : s.pic.settings = start.settings
  saved : AllFrames Saved s
  opened : s.interruptFlag = true → s.pic.Idle
  shut : s.interruptFlag = false → ∃ frame frames,
    s.frames s.current = frame :: frames ∧ Shut s.pic frame.rest

namespace Sound

omit [DecidableEq τ] in
/-- The handler that runs. -/
theorem top (h : Sound start s) {frame : Frame} {frames : List Frame}
    (hframes : s.frames s.current = frame :: frames) : Shut s.pic frame.rest := by
  cases hflag : s.interruptFlag with
  | true => exact .inl (closing_of_idle (h.opened hflag) _)
  | false =>
    obtain ⟨frame', frames', hframes', hshut⟩ := h.shut hflag
    cases hframes.symm.trans hframes'
    exact hshut

/-- A handler starts. -/
theorem enter (h : Sound start s) {pic : Pair} (hsettings : pic.settings = start.settings)
    {as : List Action} (hsaved : Saved ⟨as, s.interruptFlag⟩) (hshut : Shut pic as) :
    Sound start ({ s with pic := pic }.enter as) where
  settings := hsettings
  saved := AllFrames.enter (s := { s with pic := pic }) h.saved hsaved
  opened := nofun
  shut _ := ⟨_, _, Function.update_self .., hshut⟩

omit [DecidableEq τ] in
theorem request (h : Sound start s) (l : Line) :
    Sound start { s with pic := s.pic.request l } where
  settings := (Pair.settings_request _ l).trans h.settings
  saved := h.saved
  opened := by
    intro hflag
    cases l with
    | master => exact h.opened hflag
    | slave => exact h.opened hflag
  shut := by
    intro hflag
    obtain ⟨frame, frames, hframes, hshut⟩ := h.shut hflag
    refine ⟨frame, frames, hframes, hshut.imp (fun hclosing => ?_) id⟩
    cases l with
    | master => exact ⟨hclosing.master, hclosing.slave⟩
    | slave => exact ⟨hclosing.master, hclosing.slave⟩

theorem accept (hT : Proper T start) (hwired : start.wired = true) (h : Sound start s)
    (hflag : s.interruptFlag = true) {v : UInt8} {pic : Pair}
    (hack : s.pic.acknowledge = some (v, pic)) {as : List Action} (has : as ∈ T.program v) :
    Sound start ({ s with pic := pic }.enter as) := by
  have hidle := h.opened hflag
  obtain ⟨l, hforemost, rfl, rfl⟩ :=
    Pair.acknowledge_eq hidle ((Pair.wired_congr h.settings).trans hwired) hack
  refine h.enter ((Pair.settings_accepted _ l).trans h.settings) (.inl hflag) ?_
  rw [Pair.vector_congr h.settings l] at has
  exact (hT.lines l ((Pair.unmasked_congr h.settings l).mp hforemost.1.2) as has).imp
    (closing_accepted hidle) id

theorem act (h : Sound start s) {t : τ} {a : Action} {rest : List Action} {saved : Bool}
    {frames : List Frame} (hframes : s.frames s.current = ⟨a :: rest, saved⟩ :: frames)
    (hswitch : a = .switch → Resumable s t) : Sound start (s.perform t a ⟨rest, saved⟩ frames) := by
  have hshut : Shut s.pic (a :: rest) := h.top hframes
  have hsaved : AllFrames Saved (s.perform t a ⟨rest, saved⟩ frames) :=
    h.saved.perform hframes fun hframe _ hhalt => hframe.imp id (halts_tail hhalt)
  have htop : (s.setStack s.current (⟨rest, saved⟩ :: frames)).frames s.current =
      ⟨rest, saved⟩ :: frames := Function.update_self ..
  cases a with
  | work =>
    have hrest := hshut.skip rfl (by decide) (by decide)
    exact ⟨h.settings, hsaved, h.opened, fun _ => ⟨_, _, htop, hrest⟩⟩
  | eoiMaster =>
    refine ⟨(Pair.settings_eoiMaster _).trans h.settings, hsaved, fun hflag => ?_,
      fun _ => ⟨_, _, htop, hshut.eoiMaster⟩⟩
    have hidle := h.opened hflag
    exact ⟨hidle.1.idle_eoi, hidle.2⟩
  | eoiSlave =>
    refine ⟨(Pair.settings_eoiSlave _).trans h.settings, hsaved, fun hflag => ?_,
      fun _ => ⟨_, _, htop, hshut.eoiSlave⟩⟩
    have hidle := h.opened hflag
    exact ⟨hidle.1, hidle.2.idle_eoi⟩
  | disable =>
    have hrest := hshut.skip rfl (by decide) (by decide)
    exact ⟨h.settings, hsaved, nofun, fun _ => ⟨_, _, htop, hrest⟩⟩
  | enable =>
    exact ⟨h.settings, hsaved, fun _ => hshut.idle rfl nofun, nofun⟩
  | switch =>
    have hidle := hshut.idle rfl nofun
    refine ⟨h.settings, hsaved, fun _ => hidle, fun _ => ?_⟩
    rcases hswitch rfl with rfl | ⟨saved', frames', hother⟩
    · exact ⟨_, _, htop, .inl (closing_of_idle hidle _)⟩
    · obtain ⟨frame, frames'', hresumed⟩ : ∃ frame frames'',
          (s.setStack s.current (⟨rest, saved⟩ :: frames)).frames t = frame :: frames'' := by
        rw [State.setStack_frames]
        split
        · exact ⟨_, _, rfl⟩
        · exact ⟨_, _, hother⟩
      exact ⟨frame, frames'', hresumed, .inl (closing_of_idle hidle _)⟩
  | leave =>
    have hflag : saved = true :=
      (h.saved s.current ⟨.leave :: rest, saved⟩ (hframes ▸ List.mem_cons_self)).resolve_right
        nofun
    refine ⟨h.settings, hsaved, fun _ => hshut.idle rfl nofun, fun hfalse => ?_⟩
    cases hflag.symm.trans hfalse
  | halt => exact h

theorem create (h : Sound start s) {t : τ} (ht : t ≠ s.current) :
    Sound start (s.setStack t [⟨[.leave], true⟩]) := by
  refine ⟨h.settings, h.saved.setStack t fun frame hframe => ?_, h.opened, fun hflag => ?_⟩
  · rw [List.mem_singleton.mp hframe]
    exact .inl rfl
  · obtain ⟨frame, frames, hframes, hshut⟩ := h.shut hflag
    exact ⟨frame, frames, (Function.update_of_ne ht.symm _ _).trans hframes, hshut⟩

/-- What one event preserves. -/
theorem step (hT : Proper T start) (hwired : start.wired = true) (h : Sound start s)
    {e : Event τ} (he : Allowed T s e) : Sound start (Handlers.step s e) := by
  cases e with
  | request l => exact h.request l
  | accept as =>
    obtain ⟨hflag, v, pic, hack, has⟩ := he
    rw [Handlers.step, hack]
    exact h.accept hT hwired hflag hack has
  | act t =>
    obtain ⟨a, rest, saved, frames, hframes, -, hswitch⟩ := he
    rw [Handlers.step, hframes]
    exact h.act hframes hswitch
  | create t => exact h.create he.2
  | software v as =>
    exact h.enter h.settings (.inl he.1) (.inl (closing_of_idle (h.opened he.1) _))
  | fault v as =>
    have hhalts := hT.faults v he.1 as he.2.1
    exact h.enter h.settings (.inr hhalts) (.inr hhalts)

end Sound

section Results

variable (hidle : start.Idle) (hwired : start.wired = true) (hT : Proper T start)
include hidle hwired hT

/-- The invariant of all runs. -/
theorem sound_of_reachable (h : (Machine T start).Reachable s) : Sound start s := by
  induction h with
  | init hs =>
    obtain ⟨rfl, hflag, hframes⟩ := hs
    refine ⟨rfl, fun t frame hframe => ?_, fun _ => hidle, fun hfalse => ?_⟩
    · rw [hframes t] at hframe
      cases hframe
    · cases hflag.symm.trans hfalse
  | step _ ha ih => exact ih.step hT hwired ha

/-- While interrupts are enabled, nothing is in service. If a line is pending, the handler of the
pending line of the highest priority can start, on each of its ways, and no other. -/
theorem open_of_reachable (h : (Machine T start).Reachable s) (hflag : s.interruptFlag = true) :
    s.pic.Idle ∧ ((∃ l, s.pic.Pending l) → ∃ l, s.pic.Foremost l ∧ ∀ as,
      (Allowed T s (.accept as) ↔ as ∈ T.program (start.vector l)) ∧
        step s (.accept as) = { s with pic := s.pic.accepted l }.enter as) ∧
      ∀ as, Allowed T s (.accept as) → ∃ l, s.pic.Foremost l := by
  have hsound := sound_of_reachable hidle hwired hT h
  have hopen := hsound.opened hflag
  have hwired' : s.pic.wired = true := (Pair.wired_congr hsound.settings).trans hwired
  refine ⟨hopen, ?_, ?_⟩
  · rintro ⟨l, hl⟩
    obtain ⟨⟨v, pic⟩, hack⟩ := Option.isSome_iff_exists.mp (Pair.Pending.acknowledge hl hopen)
    obtain ⟨l', hforemost, rfl, rfl⟩ := Pair.acknowledge_eq hopen hwired' hack
    refine ⟨l', hforemost, fun as => ⟨⟨?_, fun has => ?_⟩, by rw [step, hack]⟩⟩
    · rintro ⟨-, v, pic, hack', has⟩
      cases hack.symm.trans hack'
      rwa [Pair.vector_congr hsound.settings] at has
    · exact ⟨hflag, _, _, hack, (Pair.vector_congr hsound.settings l').symm ▸ has⟩
  · rintro as ⟨-, v, pic, hack, -⟩
    obtain ⟨l', hforemost, -⟩ := Pair.acknowledge_eq hopen hwired' hack
    exact ⟨l', hforemost⟩

end Results

/-! ## How long interrupts are disabled -/

/-- The handler ends with its return and does not halt. -/
def returns : List Action → Bool
  | [] => false
  | .leave :: as => as.isEmpty
  | .halt :: _ => false
  | _ :: as => returns as

theorem returns_tail {a : Action} {as : List Action} (hleave : a ≠ .leave) (hhalt : a ≠ .halt)
    (h : returns (a :: as) = true) : returns as = true := by
  cases a with
  | leave => exact absurd rfl hleave
  | halt => exact absurd rfl hhalt
  | work => exact h
  | eoiMaster => exact h
  | eoiSlave => exact h
  | disable => exact h
  | enable => exact h
  | switch => exact h

theorem returns_length {as : List Action} (h : returns as = true) : 1 ≤ as.length := by
  cases as with
  | nil => cases h
  | cons => exact Nat.le_add_left 1 _

theorem halts_of_returns {as : List Action} (h : returns as = true) : halts as = false := by
  induction as with
  | nil => rfl
  | cons a as ih =>
    cases a with
    | work => exact ih h
    | eoiMaster => exact ih h
    | eoiSlave => exact ih h
    | disable => exact ih h
    | enable => rfl
    | switch => rfl
    | leave => rfl
    | halt => cases h

/-- The handler that starts with the event returns. -/
def Event.Returns : Event τ → Prop
  | .accept as => returns as = true
  | .software _ as => returns as = true
  | .fault .. => False
  | _ => True

/-- The runs whose handlers return. -/
abbrev Returning (T : Table) (start : Pair) : TransitionSystem (State τ) (Event τ) :=
  (Machine T start).restrict fun _ e => e.Returns

/-- Those in which no stack overflows. -/
abbrev Smooth (T : Table) (start : Pair) (room : τ → Nat) : TransitionSystem (State τ) (Event τ) :=
  (Machine T start).restrict fun s e => Fits room (step s e) ∧ e.Returns

/-- The handlers that can start and return do so after at most `n` actions. -/
structure Brief (T : Table) (start : Pair) (n : Nat) : Prop where
  lines : ∀ l, start.Unmasked l → ∀ as, as ∈ T.program (start.vector l) →
    returns as = true → as.length ≤ n
  gates : ∀ v, T.gate v = true → ∀ as, as ∈ T.program v → returns as = true → as.length ≤ n
  pos : 1 ≤ n

/-- The actions of handlers among the events. -/
def acts (es : List (Event τ)) : Nat :=
  es.countP fun e => match e with
    | .act _ => true
    | _ => false

/-- All frames return soon. -/
def Short (n : Nat) : State τ → Prop :=
  AllFrames fun frame => returns frame.rest = true ∧ frame.rest.length ≤ n

theorem Short.step {n : Nat} (hwired : start.wired = true) (hn : Brief T start n)
    (h : Sound start s) (hshort : Short n s) {e : Event τ} (he : Allowed T s e) (hr : e.Returns) :
    Short n (Handlers.step s e) := by
  cases e with
  | request l => exact hshort
  | accept as =>
    obtain ⟨hflag, v, pic, hack, has⟩ := he
    obtain ⟨l, hforemost, rfl, rfl⟩ := Pair.acknowledge_eq (h.opened hflag)
      ((Pair.wired_congr h.settings).trans hwired) hack
    rw [Handlers.step, hack]
    refine AllFrames.enter (s := { s with pic := s.pic.accepted l }) hshort ⟨hr, ?_⟩
    rw [Pair.vector_congr h.settings l] at has
    exact hn.lines l ((Pair.unmasked_congr h.settings l).mp hforemost.1.2) as has hr
  | act t =>
    obtain ⟨a, rest, saved, frames, hframes, -, -⟩ := he
    rw [Handlers.step, hframes]
    refine hshort.perform hframes fun hframe hleave hhalt => ?_
    exact ⟨returns_tail hleave hhalt hframe.1, Nat.le_of_succ_le hframe.2⟩
  | create t =>
    refine hshort.setStack t fun frame hframe => ?_
    rw [List.mem_singleton.mp hframe]
    exact ⟨rfl, hn.pos⟩
  | software v as => exact hshort.enter ⟨hr, hn.gates v he.2.2.1 as he.2.2.2 hr⟩
  | fault v as => exact hr.elim

/-- Interrupts are enabled, or the handler that runs has at most `j` actions left. -/
def Within (j : Nat) (s : State τ) : Prop :=
  s.interruptFlag = true ∨
    ∃ frame frames, s.frames s.current = frame :: frames ∧ frame.rest.length ≤ j

/-- An action brings the end of the handler nearer. -/
theorem Within.act {n j : Nat} (hshort : Short n s) (h : Within (j + 1) s)
    (hflag : s.interruptFlag = false) (hsaved : AllFrames (fun frame => frame.saved = true) s)
    {t : τ} (he : Allowed T s (.act t)) : Within j (Handlers.step s (.act t)) := by
  obtain ⟨a, rest, saved, frames, hframes, -, hswitch⟩ := he
  have hmem : ⟨a :: rest, saved⟩ ∈ s.frames s.current := hframes ▸ List.mem_cons_self
  have hlength : rest.length ≤ j := by
    rcases h with hopen | ⟨frame, frames', hframes', hlength⟩
    · cases hflag.symm.trans hopen
    · cases hframes.symm.trans hframes'
      exact Nat.le_of_succ_le_succ hlength
  have hkept : ∃ frame frames', (s.setStack s.current (⟨rest, saved⟩ :: frames)).frames s.current =
      frame :: frames' ∧ frame.rest.length ≤ j := by
    rw [State.setStack_frames, if_pos rfl]
    exact ⟨_, _, rfl, hlength⟩
  rw [Handlers.step, hframes]
  cases a with
  | work => exact .inr hkept
  | eoiMaster => exact .inr hkept
  | eoiSlave => exact .inr hkept
  | disable => exact .inr hkept
  | enable => exact .inl rfl
  | leave => exact .inl (hsaved _ _ hmem)
  | halt => cases (hshort _ _ hmem).1
  | switch =>
    have hreturns : 1 ≤ rest.length := returns_length (hshort _ _ hmem).1
    rcases hswitch rfl with rfl | ⟨saved', frames', hother⟩
    · exact .inr hkept
    · refine .inr ?_
      show ∃ frame frames'', (s.setStack s.current _).frames t = _ ∧ _
      rw [State.setStack_frames]
      split
      · exact ⟨_, _, rfl, hlength⟩
      · exact ⟨_, _, hother, Nat.le_trans hreturns hlength⟩

/-- After that many actions interrupts have been enabled again. -/
theorem Within.run {n j : Nat} (hwired : start.wired = true) (hT : Proper T start)
    (hn : Brief T start n) {es : List (Event τ)} (hes : (Returning T start).IsRun s es)
    (h : Sound start s) (hshort : Short n s) (hwithin : Within j s) (hacts : j ≤ acts es) :
    ∃ pre, pre <+: es ∧ (pre.foldl step s).interruptFlag = true := by
  induction es generalizing s j with
  | nil =>
    rcases hwithin with hopen | ⟨frame, frames, hframes, hlength⟩
    · exact ⟨[], List.prefix_rfl, hopen⟩
    · have hreturns := returns_length (hshort s.current frame (hframes ▸ List.mem_cons_self)).1
      exact absurd (Nat.le_trans hreturns (Nat.le_trans hlength hacts)) (Nat.not_succ_le_zero 0)
  | cons e es ih =>
    cases hflag : s.interruptFlag with
    | true => exact ⟨[], List.nil_prefix, hflag⟩
    | false =>
      obtain ⟨⟨he, hr⟩, hes⟩ := TransitionSystem.isRun_cons.mp hes
      have hsound := h.step hT hwired he
      have hnext {i : Nat} (hi : Within i (step s e)) (hle : i ≤ acts es) :
          ∃ pre, pre <+: e :: es ∧ (pre.foldl step s).interruptFlag = true := by
        obtain ⟨pre, hpre, hopen⟩ := ih hes hsound (hshort.step hwired hn h he hr) hi hle
        exact ⟨e :: pre, List.cons_prefix_cons.mpr ⟨rfl, hpre⟩, hopen⟩
      obtain ⟨frame, frames, hframes, hlength⟩ :=
        hwithin.resolve_left (by rw [hflag]; exact Bool.false_ne_true)
      cases e with
      | request l => exact hnext (.inr ⟨frame, frames, hframes, hlength⟩) hacts
      | accept as => cases hflag.symm.trans he.1
      | software v as => cases hflag.symm.trans he.1
      | fault v as => exact hr.elim
      | create t =>
        refine hnext (.inr ⟨frame, frames, ?_, hlength⟩) hacts
        exact (State.setStack_frames ..).trans ((if_neg he.2.symm).trans hframes)
      | act t =>
        have hcount : acts (.act t :: es) = acts es + 1 := List.countP_cons_of_pos rfl
        rw [hcount] at hacts
        have hwithin' : Within (acts es + 1) s :=
          .inr ⟨frame, frames, hframes, Nat.le_trans hlength hacts⟩
        have hsaved : AllFrames (fun frame => frame.saved = true) s := fun t frame hframe =>
          (h.saved t frame hframe).resolve_right
            (Bool.eq_false_iff.mp (halts_of_returns (hshort t frame hframe).1))
        exact hnext (hwithin'.act (T := T) hshort hflag hsaved he) (Nat.le_refl _)

section Results

variable {n : Nat} (hidle : start.Idle) (hwired : start.wired = true) (hT : Proper T start)
  (hn : Brief T start n)
include hidle hwired hT hn

theorem short_of_reachable (h : (Returning T start).Reachable s) : Short n s := by
  induction h with
  | init hs =>
    intro t frame hframe
    rw [hs.2.2 t] at hframe
    cases hframe
  | step hr ha ih =>
    exact ih.step hwired hn (sound_of_reachable hidle hwired hT hr.of_restrict) ha.1 ha.2

/-- In the runs whose handlers return, interrupts are disabled for at most `n` actions in a row,
and there is always a next action until they are enabled. -/
theorem reopens (h : (Returning T start).Reachable s) :
    (s.interruptFlag = false → ∃ t, Allowed T s (.act t)) ∧
      ∀ es, (Returning T start).IsRun s es → n ≤ acts es →
        ∃ pre, pre <+: es ∧ (pre.foldl step s).interruptFlag = true := by
  have hsound := sound_of_reachable hidle hwired hT h.of_restrict
  have hshort := short_of_reachable hidle hwired hT hn h
  constructor
  · intro hflag
    obtain ⟨⟨rest, saved⟩, frames, hframes, -⟩ := hsound.shut hflag
    have hreturns := (hshort s.current _ (hframes ▸ List.mem_cons_self)).1
    cases rest with
    | nil => cases hreturns
    | cons a rest =>
      refine ⟨s.current, a, rest, saved, frames, hframes, ?_, fun _ => .inl rfl⟩
      rintro rfl
      cases hreturns
  · intro es hes hacts
    refine Within.run hwired hT hn hes hsound hshort ?_ hacts
    cases hflag : s.interruptFlag with
    | true => exact .inl hflag
    | false =>
      obtain ⟨frame, frames, hframes, -⟩ := hsound.shut hflag
      exact .inr ⟨frame, frames, hframes, (hshort s.current _ (hframes ▸ List.mem_cons_self)).2⟩

end Results

/-! ## Systems that have stopped -/

/-- The handler that runs halts before it lets anything else in. -/
def Stopped (s : State τ) : Prop :=
  s.interruptFlag = false ∧
    ∃ frame frames, s.frames s.current = frame :: frames ∧ halts frame.rest = true

theorem stopped_enter (s : State τ) {as : List Action} (has : halts as = true) :
    Stopped (s.enter as) :=
  ⟨rfl, _, _, Function.update_self .., has⟩

theorem Stopped.step (hT : ∀ v, v < 32 → ∀ as, as ∈ T.program v → halts as = true)
    (h : Stopped s) {e : Event τ} (he : Allowed T s e) : Stopped (Handlers.step s e) := by
  obtain ⟨hflag, frame, frames, hframes, hhalts⟩ := h
  cases e with
  | request l => exact ⟨hflag, frame, frames, hframes, hhalts⟩
  | accept as => cases hflag.symm.trans he.1
  | software v as => cases hflag.symm.trans he.1
  | fault v as => exact stopped_enter s (hT v he.1 as he.2.1)
  | create t =>
    exact ⟨hflag, frame, frames, (Function.update_of_ne he.2.symm _ _).trans hframes, hhalts⟩
  | act t =>
    obtain ⟨a, rest, saved, frames', hframes', hhalt, -⟩ := he
    cases hframes.symm.trans hframes'
    have hrest := halts_tail hhalt hhalts
    have htop : (s.setStack s.current (⟨rest, saved⟩ :: frames)).frames s.current =
        ⟨rest, saved⟩ :: frames := Function.update_self ..
    rw [Handlers.step, hframes]
    cases a with
    | work => exact ⟨hflag, _, _, htop, hrest⟩
    | eoiMaster => exact ⟨hflag, _, _, htop, hrest⟩
    | eoiSlave => exact ⟨hflag, _, _, htop, hrest⟩
    | disable => exact ⟨rfl, _, _, htop, hrest⟩
    | enable => cases hhalts
    | switch => cases hhalts
    | leave => cases hhalts
    | halt => exact absurd rfl hhalt

/-- Interrupts stay disabled for ever. -/
theorem never_reopens (hT : ∀ v, v < 32 → ∀ as, as ∈ T.program v → halts as = true)
    (h : Stopped s) {es : List (Event τ)} (hes : (Machine T start).IsRun s es) :
    (es.foldl step s).interruptFlag = false := by
  induction es generalizing s with
  | nil => exact h.1
  | cons e es ih =>
    obtain ⟨he, hes⟩ := TransitionSystem.isRun_cons.mp hes
    exact ih (h.step hT he) hes

end Handlers
