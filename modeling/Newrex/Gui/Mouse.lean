import Mathlib.Data.List.Induction
import Newrex.Lib.Framing

/-!
# The mouse

`mouse_isr_handler` of `kernel/kernel.c` with the variables of the window manager that it
works on. The controller sends packets of three bytes: the buttons and the signs, then the
movement along each axis. The buffer `mouse_byte` is signed, so a movement whose byte is 128 or
more is read 256 too low; all small movements to the left and down are among these.

* `Mouse.follows_run`: the handler cuts the bytes that it reads into packets as the protocol
  does;
* `mouse_tracking_iff`: every packet of a run moves the pointer by what it says exactly when
  no such movement shows on the screen (`Mouse.Harmless`);
* `negative_movement_misread`: a movement of one to the left.
-/

namespace Newrex

/-- The variables of the window manager that the handler works on. -/
structure Mouse where
  mouseX : Int
  mouseY : Int
  mouseCycle : Nat
  mouseByte : Nat → UInt8
  winX : Int
  winY : Int
  winW : Int
  winH : Int
  isDragging : Bool
  dragOffX : Int
  dragOffY : Int
  vgaActive : Bool
  frameReady : Bool

/-- A `char`, which is signed, as an `int`. -/
def signedChar (b : UInt8) : Int := b.toInt8.toInt

namespace Mouse

/-- `if (v < 0) v = 0; if (v > last) v = last;` -/
def clampTo (v last : Int) : Int :=
  let v := if v < 0 then 0 else v
  if v > last then last else v

/-- The new position of the pointer. -/
def movePointer (s : Mouse) : Mouse :=
  let x := if s.mouseByte 0 &&& 0x10 ≠ 0 then s.mouseX - (256 - signedChar (s.mouseByte 1))
    else s.mouseX + signedChar (s.mouseByte 1)
  let y := if s.mouseByte 0 &&& 0x20 ≠ 0 then s.mouseY + (256 - signedChar (s.mouseByte 2))
    else s.mouseY - signedChar (s.mouseByte 2)
  { s with mouseX := clampTo x 319, mouseY := clampTo y 199, frameReady := true }

def OnTitleBar (s : Mouse) : Prop :=
  s.winX ≤ s.mouseX ∧ s.mouseX ≤ s.winX + s.winW ∧ s.winY ≤ s.mouseY ∧ s.mouseY ≤ s.winY + 10

/-- The area that a click on which halts the kernel. -/
def OnPanicButton (s : Mouse) : Prop :=
  s.winX + 10 ≤ s.mouseX ∧ s.mouseX ≤ s.winX + s.winW - 10 ∧
    s.winY + 25 ≤ s.mouseY ∧ s.mouseY ≤ s.winY + 55

instance (s : Mouse) : Decidable s.OnTitleBar := inferInstanceAs (Decidable (_ ∧ _))
instance (s : Mouse) : Decidable s.OnPanicButton := inferInstanceAs (Decidable (_ ∧ _))

/-- A press on the title bar takes hold of the window. -/
def grabWindow (s : Mouse) : Mouse :=
  if s.isDragging = false ∧ s.OnTitleBar then
    { s with
      isDragging := true
      dragOffX := s.mouseX - s.winX
      dragOffY := s.mouseY - s.winY }
  else s

def dragWindow (s : Mouse) : Mouse :=
  if s.isDragging then
    { s with winX := s.mouseX - s.dragOffX, winY := s.mouseY - s.dragOffY }
  else s

/-- What a packet does; `none` when the kernel halts. -/
def handlePacket (s : Mouse) : Option Mouse :=
  let s := s.movePointer
  if s.mouseByte 0 &&& 0x01 ≠ 0 then
    let s := s.grabWindow
    if s.OnPanicButton then none else some s.dragWindow
  else some { s with isDragging := false }.dragWindow

/-- `mouse_isr_handler`, with the status and the byte that it reads from the controller;
`none` when the kernel halts. -/
def mouseIsrHandler (s : Mouse) (status d : UInt8) : Option Mouse :=
  if status &&& 0x20 ≠ 0 then
    if s.mouseCycle = 0 ∧ d &&& 0x08 = 0 then some s
    else
      let s := { s with
        mouseByte := fun i => if i = s.mouseCycle then d else s.mouseByte i
        mouseCycle := (s.mouseCycle + 1) % 256 }
      if s.mouseCycle = 3 then
        let s := { s with mouseCycle := 0 }
        if s.vgaActive then s.handlePacket else some s
      else some s
  else some s

/-- A run of the handler. -/
def run (s : Mouse) (calls : List (UInt8 × UInt8)) : Option Mouse :=
  calls.foldlM (fun s c => s.mouseIsrHandler c.1 c.2) s

/-! ## Packets -/

/-- The status, and the movement along the two axes. -/
abbrev Packet := UInt8 × UInt8 × UInt8

/-- The bytes that the handler takes from the mouse. -/
def bytesRead (calls : List (UInt8 × UInt8)) : List UInt8 :=
  (calls.filter fun c => c.1 &&& 0x20 ≠ 0).map Prod.snd

/-- The bytes cut into packets, each of which begins with a byte that has bit 3 set, and the
bytes of a packet that is not complete. -/
def grouped (calls : List (UInt8 × UInt8)) : List Packet × List UInt8 :=
  Framing.group (fun d => d &&& 0x08 ≠ 0) (bytesRead calls)

/-- The movement to the right and up: nine bits in two's complement. -/
def Packet.dx (p : Packet) : Int := p.2.1.toNat - if p.1 &&& 0x10 ≠ 0 then 256 else 0

def Packet.dy (p : Packet) : Int := p.2.2.toNat - if p.1 &&& 0x20 ≠ 0 then 256 else 0

/-- The packet `p` comes to its end in the run, with the states before and after its last
byte. -/
def Completes (start : Mouse) (calls : List (UInt8 × UInt8)) (s : Mouse) (p : Packet)
    (s' : Mouse) : Prop :=
  ∃ pre c, pre ++ [c] <+: calls ∧ start.run pre = some s ∧ start.run (pre ++ [c]) = some s' ∧
    (grouped (pre ++ [c])).1 = (grouped pre).1 ++ [p]

/-- `v` brought into the range from 0 to `last`. -/
def clamp (v last : Int) : Int := max 0 (min v last)

/-- Every packet of the run moves the pointer by what it says, and `mouse_cycle` stays in its
range. -/
def Tracks (start : Mouse) (calls : List (UInt8 × UInt8)) : Prop :=
  (∀ s p s', Completes start calls s p s' →
    s'.mouseX = clamp (s.mouseX + p.dx) 319 ∧ s'.mouseY = clamp (s.mouseY - p.dy) 199) ∧
  ∀ pre s, pre <+: calls → start.run pre = some s → s.mouseCycle ≤ 2

/-- The GUI is active, the pointer is on the screen, and no packet has begun. -/
structure Ready (s : Mouse) : Prop where
  active : s.vgaActive = true
  cycle : s.mouseCycle = 0
  x_range : 0 ≤ s.mouseX ∧ s.mouseX ≤ 319
  y_range : 0 ≤ s.mouseY ∧ s.mouseY ≤ 199

/-- A movement whose byte is 128 or more ends at the edge of the screen that the pointer is
stopped at anyway: the left one, or the lower one. -/
def Harmless (s : Mouse) (p : Packet) : Prop :=
  (p.2.1 < 128 ∨ s.mouseX + p.dx ≤ 0) ∧ (p.2.2 < 128 ∨ 199 ≤ s.mouseY - p.dy)

/-! ## One call -/

theorem signedChar_eq (b : UInt8) :
    signedChar b = if b < 128 then (b.toNat : Int) else b.toNat - 256 := by
  have hlt : b < 128 ↔ b.toNat < 128 := UInt8.lt_iff_toNat_lt
  have hint : signedChar b = b.toBitVec.toInt := rfl
  rw [hint, BitVec.toInt_eq_toNat_cond, UInt8.toNat_toBitVec]
  simp only [hlt]
  split <;> split <;> omega

theorem clampTo_eq (v last : Int) (hlast : 0 ≤ last) : clampTo v last = clamp v last := by
  simp only [clampTo, clamp]
  split <;> split <;> omega

/-- The pointer of the code after a packet. -/
structure Moved (s : Mouse) (p : Packet) (s' : Mouse) : Prop where
  x_eq : s'.mouseX = clampTo (if p.1 &&& 0x10 ≠ 0 then s.mouseX - (256 - signedChar p.2.1)
    else s.mouseX + signedChar p.2.1) 319
  y_eq : s'.mouseY = clampTo (if p.1 &&& 0x20 ≠ 0 then s.mouseY + (256 - signedChar p.2.2)
    else s.mouseY - signedChar p.2.2) 199

/-- The state between two calls, with the bytes of the packet that is not complete. -/
structure Follows (s : Mouse) (left : List UInt8) : Prop where
  active : s.vgaActive = true
  cycle : s.mouseCycle = left.length
  short : left.length ≤ 2
  bytes : ∀ i b, left[i]? = some b → s.mouseByte i = b
  x_range : 0 ≤ s.mouseX ∧ s.mouseX ≤ 319
  y_range : 0 ≤ s.mouseY ∧ s.mouseY ≤ 199

/-- Two states that differ in the window only. -/
structure SamePointer (s s' : Mouse) : Prop where
  x_eq : s'.mouseX = s.mouseX
  y_eq : s'.mouseY = s.mouseY
  cycle_eq : s'.mouseCycle = s.mouseCycle
  active_eq : s'.vgaActive = s.vgaActive

theorem SamePointer.trans {s t u : Mouse} (h : s.SamePointer t) (h' : t.SamePointer u) :
    s.SamePointer u :=
  ⟨h'.x_eq.trans h.x_eq, h'.y_eq.trans h.y_eq, h'.cycle_eq.trans h.cycle_eq,
    h'.active_eq.trans h.active_eq⟩

theorem samePointer_grabWindow (s : Mouse) : s.SamePointer s.grabWindow := by
  unfold grabWindow
  split <;> exact ⟨rfl, rfl, rfl, rfl⟩

theorem samePointer_dragWindow (s : Mouse) : s.SamePointer s.dragWindow := by
  unfold dragWindow
  split <;> exact ⟨rfl, rfl, rfl, rfl⟩

/-- Behind the move of the pointer a packet works on the window only. -/
theorem samePointer_handlePacket {s s' : Mouse} (h : s.handlePacket = some s') :
    s.movePointer.SamePointer s' := by
  simp only [handlePacket] at h
  split at h
  · split at h
    · cases h
    · cases h
      exact (samePointer_grabWindow _).trans (samePointer_dragWindow _)
  · cases h
    have hdropped : s.movePointer.SamePointer { s.movePointer with isDragging := false } :=
      ⟨rfl, rfl, rfl, rfl⟩
    exact hdropped.trans (samePointer_dragWindow _)

theorem clampTo_range (v : Int) {last : Int} (hlast : 0 ≤ last) :
    0 ≤ clampTo v last ∧ clampTo v last ≤ last := by
  rw [clampTo_eq v last hlast, clamp]
  omega

section Handler

variable {s s' : Mouse} {left : List UInt8} {status d : UInt8} (h : s.Follows left)

theorem handler_ignored (s : Mouse) (hstatus : status &&& 0x20 = 0) :
    s.mouseIsrHandler status d = some s := by
  rw [mouseIsrHandler, if_neg (not_not_intro hstatus)]

include h

theorem handler_skipped (hleft : left = []) (hd : d &&& 0x08 = 0) :
    s.mouseIsrHandler status d = some s := by
  have hcycle : s.mouseCycle = 0 := by rw [h.cycle, hleft]; rfl
  rw [mouseIsrHandler]
  split
  · exact if_pos ⟨hcycle, hd⟩
  · rfl

theorem handler_stored (hstatus : status &&& 0x20 ≠ 0) (hstart : left = [] → d &&& 0x08 ≠ 0)
    (hroom : left.length < 2) :
    ∃ s', s.mouseIsrHandler status d = some s' ∧ s'.Follows (left ++ [d]) := by
  have hcycle := h.cycle
  have hkept : ¬ (s.mouseCycle = 0 ∧ d &&& 0x08 = 0) := fun hskip =>
    hstart (List.length_eq_zero_iff.mp (h.cycle ▸ hskip.1)) hskip.2
  have hnext : (s.mouseCycle + 1) % 256 = s.mouseCycle + 1 := Nat.mod_eq_of_lt (by omega)
  refine ⟨{ s with
    mouseByte := fun i => if i = s.mouseCycle then d else s.mouseByte i
    mouseCycle := s.mouseCycle + 1 }, ?_, ?_⟩
  · rw [mouseIsrHandler, if_pos hstatus, if_neg hkept]
    dsimp only
    rw [hnext, if_neg (show ¬ s.mouseCycle + 1 = 3 by omega)]
  · refine ⟨h.active, ?_, ?_, ?_, h.x_range, h.y_range⟩
    · rw [List.length_append, List.length_singleton, ← hcycle]
    · rw [List.length_append, List.length_singleton]
      omega
    · intro i b hi
      dsimp only
      by_cases hlast : i = left.length
      · rw [hlast, List.getElem?_concat_length] at hi
        rw [hcycle, if_pos hlast]
        exact Option.some_inj.mp hi
      · have hin : i < left.length := by
          have := (List.getElem?_eq_some_iff.mp hi).1
          rw [List.length_append, List.length_singleton] at this
          omega
        rw [List.getElem?_append_left hin] at hi
        rw [hcycle, if_neg hlast]
        exact h.bytes i b hi

theorem handler_completed {a b : UInt8} (hleft : left = [a, b]) (hstatus : status &&& 0x20 ≠ 0)
    (hstep : s.mouseIsrHandler status d = some s') :
    s'.Follows [] ∧ s.Moved (a, b, d) s' := by
  have hcycle : s.mouseCycle = 2 := by rw [h.cycle, hleft]; rfl
  have ha : s.mouseByte 0 = a := h.bytes 0 a (by rw [hleft]; rfl)
  have hb : s.mouseByte 1 = b := h.bytes 1 b (by rw [hleft]; rfl)
  have hkept : ¬ (s.mouseCycle = 0 ∧ d &&& 0x08 = 0) := fun hskip => by omega
  rw [mouseIsrHandler, if_pos hstatus, if_neg hkept] at hstep
  dsimp only at hstep
  rw [hcycle, if_pos (by decide), if_pos h.active] at hstep
  have hsame := samePointer_handlePacket hstep
  refine ⟨⟨?_, ?_, Nat.zero_le 2, ?_, ?_, ?_⟩, ?_, ?_⟩
  · exact hsame.active_eq.trans h.active
  · exact hsame.cycle_eq
  · intro i b hi
    cases hi
  · rw [hsame.x_eq]
    exact clampTo_range _ (by decide)
  · rw [hsame.y_eq]
    exact clampTo_range _ (by decide)
  · rw [hsame.x_eq]
    simp [movePointer, ha, hb]
  · rw [hsame.y_eq]
    simp [movePointer, ha, hb]

end Handler

/-! ## Runs -/

theorem run_concat (start : Mouse) (pre : List (UInt8 × UInt8)) (c : UInt8 × UInt8) :
    start.run (pre ++ [c]) = (start.run pre).bind fun s => s.mouseIsrHandler c.1 c.2 := by
  rw [run, List.foldlM_append]
  cases h : pre.foldlM (fun s c => s.mouseIsrHandler c.1 c.2) start with
  | none => rw [run, h]; rfl
  | some s =>
    rw [run, h]
    exact Option.bind_fun_some (s.mouseIsrHandler c.1 c.2)

theorem grouped_ignored {pre : List (UInt8 × UInt8)} {c : UInt8 × UInt8}
    (hstatus : c.1 &&& 0x20 = 0) : grouped (pre ++ [c]) = grouped pre := by
  have hbytes : bytesRead (pre ++ [c]) = bytesRead pre := by simp [bytesRead, hstatus]
  rw [grouped, hbytes, grouped]

theorem grouped_read {pre : List (UInt8 × UInt8)} {c : UInt8 × UInt8}
    (hstatus : c.1 &&& 0x20 ≠ 0) :
    grouped (pre ++ [c]) =
      match (grouped pre).2 with
      | [] => if c.2 &&& 0x08 ≠ 0 then ((grouped pre).1, [c.2]) else grouped pre
      | [a] => ((grouped pre).1, [a, c.2])
      | a :: b :: _ => ((grouped pre).1 ++ [(a, b, c.2)], []) := by
  have hbytes : bytesRead (pre ++ [c]) = bytesRead pre ++ [c.2] := by simp [bytesRead, hstatus]
  have hgroup : grouped pre = Framing.group (fun d => d &&& 0x08 ≠ 0) (bytesRead pre) := rfl
  rw [grouped, hbytes, Framing.group_concat, ← hgroup]
  simp only [decide_eq_true_eq]
  cases (grouped pre).2 with
  | nil => rfl
  | cons a left => cases left <;> rfl

theorem not_grown {l : List Packet} {p : Packet} : l ≠ l ++ [p] := by
  simp

/-- What one more call does to the packets and the state. -/
theorem follows_concat {pre : List (UInt8 × UInt8)} {c : UInt8 × UInt8} {s s' : Mouse}
    (h : s.Follows (grouped pre).2) (hstep : s.mouseIsrHandler c.1 c.2 = some s') :
    s'.Follows (grouped (pre ++ [c])).2 ∧
      ∀ p, (grouped (pre ++ [c])).1 = (grouped pre).1 ++ [p] → s.Moved p s' := by
  by_cases hstatus : c.1 &&& 0x20 = 0
  · rw [handler_ignored s hstatus] at hstep
    cases hstep
    rw [grouped_ignored hstatus]
    exact ⟨h, fun p hp => absurd hp not_grown⟩
  · rw [grouped_read hstatus]
    have hshort := h.short
    cases hleft : (grouped pre).2 with
    | nil =>
      by_cases hd : c.2 &&& 0x08 = 0
      · rw [handler_skipped h hleft hd] at hstep
        cases hstep
        dsimp only
        rw [if_neg (not_not_intro hd)]
        exact ⟨h, fun p hp => absurd hp not_grown⟩
      · obtain ⟨t, ht, hfollows⟩ := handler_stored h hstatus (fun _ => hd) (by rw [hleft]; decide)
        cases hstep.symm.trans ht
        dsimp only
        rw [if_pos hd]
        rw [hleft] at hfollows
        exact ⟨hfollows, fun p hp => absurd hp not_grown⟩
    | cons a left =>
      cases left with
      | nil =>
        obtain ⟨t, ht, hfollows⟩ := handler_stored h hstatus
          (fun hnil => absurd (hleft.symm.trans hnil) (List.cons_ne_nil a [])) (by simp [hleft])
        cases hstep.symm.trans ht
        rw [hleft] at hfollows
        exact ⟨hfollows, fun p hp => absurd hp not_grown⟩
      | cons b left =>
        have hnil : left = [] := by
          rw [hleft, List.length_cons, List.length_cons] at hshort
          exact List.length_eq_zero_iff.mp (by omega)
        rw [hnil] at hleft
        obtain ⟨hfollows, hmoved⟩ := handler_completed h hleft hstatus hstep
        refine ⟨hfollows, fun p hp => ?_⟩
        have hpacket := List.append_cancel_left hp
        cases hpacket
        exact hmoved

theorem Ready.follows {s : Mouse} (h : s.Ready) : s.Follows (grouped []).2 where
  active := h.active
  cycle := h.cycle
  short := Nat.zero_le 2
  bytes := fun _ _ hi => nomatch hi
  x_range := h.x_range
  y_range := h.y_range

/-- After every run the buffer holds the bytes of the packet that is not complete. -/
theorem follows_run {start s : Mouse} (hready : start.Ready) {calls : List (UInt8 × UInt8)}
    (hrun : start.run calls = some s) : s.Follows (grouped calls).2 := by
  induction calls using List.reverseRecOn generalizing s with
  | nil =>
    cases hrun
    exact hready.follows
  | append_singleton pre c ih =>
    rw [run_concat] at hrun
    obtain ⟨t, ht, hstep⟩ := Option.bind_eq_some_iff.mp hrun
    exact (follows_concat (ih ht) hstep).1

theorem Completes.moved {start : Mouse} (hready : start.Ready) {calls : List (UInt8 × UInt8)}
    {s s' : Mouse} {p : Packet} (h : Completes start calls s p s') :
    s.Moved p s' ∧ (0 ≤ s.mouseX ∧ s.mouseX ≤ 319) ∧ 0 ≤ s.mouseY ∧ s.mouseY ≤ 199 := by
  obtain ⟨pre, c, -, hs, hs', hgrown⟩ := h
  have hfollows := follows_run hready hs
  rw [run_concat, hs] at hs'
  exact ⟨(follows_concat hfollows hs').2 p hgrown, hfollows.x_range, hfollows.y_range⟩

/-! ## The movement -/

theorem clamp_x_iff {x : Int} (hx : 0 ≤ x ∧ x ≤ 319) (p : Packet) :
    clampTo (if p.1 &&& 0x10 ≠ 0 then x - (256 - signedChar p.2.1) else x + signedChar p.2.1) 319 =
        clamp (x + p.dx) 319 ↔ p.2.1 < 128 ∨ x + p.dx ≤ 0 := by
  have hbyte := p.2.1.toNat_lt
  have hlt : p.2.1 < 128 ↔ p.2.1.toNat < 128 := UInt8.lt_iff_toNat_lt
  rw [clampTo_eq _ 319 (by decide), signedChar_eq, Packet.dx, clamp, clamp]
  simp only [hlt]
  split <;> split <;> omega

theorem clamp_y_iff {y : Int} (hy : 0 ≤ y ∧ y ≤ 199) (p : Packet) :
    clampTo (if p.1 &&& 0x20 ≠ 0 then y + (256 - signedChar p.2.2) else y - signedChar p.2.2) 199 =
        clamp (y - p.dy) 199 ↔ p.2.2 < 128 ∨ 199 ≤ y - p.dy := by
  have hbyte := p.2.2.toNat_lt
  have hlt : p.2.2 < 128 ↔ p.2.2.toNat < 128 := UInt8.lt_iff_toNat_lt
  rw [clampTo_eq _ 199 (by decide), signedChar_eq, Packet.dy, clamp, clamp]
  simp only [hlt]
  split <;> split <;> omega

end Mouse

open Mouse in
/-- In a run of the handler, from a state without a packet on its way, every packet moves the
pointer by its two movements of nine bits, and `mouse_cycle` stays in its range, if and only if
no movement whose byte is 128 or more shows. -/
theorem mouse_tracking_iff (start : Mouse) (hready : start.Ready)
    (calls : List (UInt8 × UInt8)) :
    Tracks start calls ↔ ∀ s p s', Completes start calls s p s' → s.Harmless p := by
  constructor
  · rintro ⟨hmoves, -⟩ s p s' h
    obtain ⟨hmoved, hx, hy⟩ := h.moved hready
    obtain ⟨hexactX, hexactY⟩ := hmoves s p s' h
    rw [hmoved.x_eq] at hexactX
    rw [hmoved.y_eq] at hexactY
    exact ⟨(clamp_x_iff hx p).mp hexactX, (clamp_y_iff hy p).mp hexactY⟩
  · intro hharmless
    refine ⟨fun s p s' h => ?_, fun pre s _ hs => ?_⟩
    · obtain ⟨hmoved, hx, hy⟩ := h.moved hready
      obtain ⟨hharmlessX, hharmlessY⟩ := hharmless s p s' h
      rw [hmoved.x_eq, hmoved.y_eq]
      exact ⟨(clamp_x_iff hx p).mpr hharmlessX, (clamp_y_iff hy p).mpr hharmlessY⟩
    · have hfollows := follows_run hready hs
      exact hfollows.cycle ▸ hfollows.short

/-- The desktop as `vgamode` shows it first. -/
def sampleDesktop : Mouse where
  mouseX := 160
  mouseY := 100
  mouseCycle := 0
  mouseByte := fun _ => 0
  winX := 80
  winY := 40
  winW := 160
  winH := 100
  isDragging := false
  dragOffX := 0
  dragOffY := 0
  vgaActive := true
  frameReady := true

theorem sampleDesktop_ready : sampleDesktop.Ready :=
  ⟨rfl, rfl, by decide, by decide⟩

/-- A movement of five to the right and three up. -/
theorem mouse_tracking_sample :
    Mouse.Tracks sampleDesktop [(0x21, 0x08), (0x21, 5), (0x21, 3)] := by
  refine (mouse_tracking_iff sampleDesktop sampleDesktop_ready _).mpr ?_
  rintro s p s' ⟨pre, c, ⟨rest, hrest⟩, hs, -, hgrown⟩
  rcases pre with _ | ⟨c0, _ | ⟨c1, _ | ⟨c2, pre⟩⟩⟩
  · cases hrest
    cases hgrown
  · cases hrest
    cases hgrown
  · cases hrest
    cases hs
    cases hgrown
    exact ⟨.inl (by decide), .inl (by decide)⟩
  · have hlength := congrArg List.length hrest
    simp at hlength

/-- A movement of one to the left takes the pointer to the edge of the screen. -/
theorem negative_movement_misread :
    ¬ Mouse.Tracks sampleDesktop [(0x21, 0x18), (0x21, 0xFF), (0x21, 0)] := by
  rintro ⟨hmoves, -⟩
  have hmove := hmoves _ (0x18, 0xFF, 0) _
    ⟨[(0x21, 0x18), (0x21, 0xFF)], (0x21, 0), ⟨[], rfl⟩, rfl, rfl, rfl⟩
  exact absurd hmove.1 (by decide)

end Newrex
