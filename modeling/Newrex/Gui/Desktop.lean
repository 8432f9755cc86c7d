import Newrex.Gui.CommandLine
import Newrex.Gui.Render
import Newrex.Lib.Refresh

/-!
# The desktop loop

`vgamode` draws a frame whenever `frame_ready` is set, clears the flag after that and halts until
the next interrupt. The mouse, the keyboard and the timer interrupt it anywhere, also while
`render_gui` draws, and `render_gui` reads their variables when it comes to them. A routine that
draws one shape reads only its arguments, so that one call is one stage here.

* `desktop_draw`: a drawing without interrupts is `render_gui`;
* `desktop_catches_up`: after the last movement of the mouse, a round of the loop, a tick of the
  timer or a character, and one more round put the right frame on the screen;
* `desktop_forgets`: until then a movement can stay unseen, because it came after the pointer
  had been drawn and before the flag was cleared.

A click on the panic area and a command that does not return stop the loop for good.
-/

namespace Newrex

open Painting Refresh

/-- `shift_active` and `e0_mode`. -/
structure Keyboard where
  shiftActive : Bool
  e0Mode : Bool

/-- `current_layout`. -/
def Keyboard.layout (k : Keyboard) : List UInt8 :=
  if k.shiftActive then scancodeToAsciiShift else scancodeToAsciiNormal

/-- `keyboard_isr_handler` with `vga_active`, and the character that it gives to
`gui_handle_char`. -/
def Keyboard.decode (k : Keyboard) (scancode : UInt8) : Keyboard × Option UInt8 :=
  if scancode = 0xE0 then ({ k with e0Mode := true }, none)
  else if k.e0Mode then ({ k with e0Mode := false }, none)
  else if scancode = 0x2A ∨ scancode = 0x36 then ({ k with shiftActive := true }, none)
  else if scancode = 0xAA ∨ scancode = 0xB6 then ({ k with shiftActive := false }, none)
  else if scancode &&& 0x80 = 0 ∧ scancode.toNat < scancodeToAsciiNormal.length then
    (k, some (k.layout.getD scancode.toNat 0))
  else (k, none)

/-- The variables that the interrupts change. `vgamode` sets `vga_active`, and nothing clears it. -/
structure DesktopVars where
  mouse : Mouse
  keyboard : Keyboard
  shell : GuiShell
  watch : Nat → UInt8
  systemTicks : UInt32
  active : mouse.vgaActive = true

/-- The two buffers and the local variables of `render_gui`. -/
structure DesktopCanvas where
  video : Video
  termX : Int
  termY : Int
  promptY : Int

inductive DesktopInterrupt
  /-- The status and the byte that `mouse_isr_handler` reads. -/
  | mouse (status d : UInt8)
  /-- A scancode, and what the memory at 0xB8000 holds after it: Enter runs a command, which
  prints there, and so do the arrows. -/
  | key (scancode : UInt8) (watch : Nat → UInt8)
  | timer

namespace Mouse

theorem grabWindow_kept (s : Mouse) :
    s.grabWindow.vgaActive = s.vgaActive ∧ s.grabWindow.winH = s.winH := by
  rw [grabWindow]
  split
  · exact ⟨rfl, rfl⟩
  · exact ⟨rfl, rfl⟩

theorem dragWindow_kept (s : Mouse) :
    s.dragWindow.vgaActive = s.vgaActive ∧ s.dragWindow.winH = s.winH := by
  rw [dragWindow]
  split
  · exact ⟨rfl, rfl⟩
  · exact ⟨rfl, rfl⟩

theorem handlePacket_kept {s s' : Mouse} (h : s.handlePacket = some s') :
    s'.vgaActive = s.vgaActive ∧ s'.winH = s.winH := by
  rw [handlePacket] at h
  dsimp only at h
  split at h
  · split at h
    · cases h
    · cases h
      have hgrab := grabWindow_kept s.movePointer
      have hdrag := dragWindow_kept s.movePointer.grabWindow
      exact ⟨hdrag.1.trans hgrab.1, hdrag.2.trans hgrab.2⟩
  · cases h
    exact dragWindow_kept _

/-- The mouse changes neither `vga_active` nor the height of the window. -/
theorem mouseIsrHandler_kept {s s' : Mouse} {status d : UInt8}
    (h : s.mouseIsrHandler status d = some s') :
    s'.vgaActive = s.vgaActive ∧ s'.winH = s.winH := by
  rw [mouseIsrHandler] at h
  split at h
  · split at h
    · cases h
      exact ⟨rfl, rfl⟩
    · dsimp only at h
      split at h
      · split at h
        · have hkept := handlePacket_kept h
          exact ⟨hkept.1, hkept.2⟩
        · cases h
          exact ⟨rfl, rfl⟩
      · cases h
        exact ⟨rfl, rfl⟩
  · cases h
    exact ⟨rfl, rfl⟩

end Mouse

/-- The handlers, and whether they set `frame_ready`; `none` for a click that halts the kernel and
for a command that does not return. A command leaves the variables of the window alone, and no
daemon runs. -/
def DesktopInterrupt.handle (rest : GuiShell.Rest) :
    DesktopInterrupt → DesktopVars → Option (DesktopVars × Bool)
  | mouse status d, v =>
    match h : ({ v.mouse with frameReady := false } : Mouse).mouseIsrHandler status d with
    | some m =>
      some ({ v with mouse := m, active := (Mouse.mouseIsrHandler_kept h).1.trans v.active },
        m.frameReady)
    | none => none
  | key scancode watch, v =>
    match v.keyboard.decode scancode with
    | (keyboard, none) => some ({ v with keyboard := keyboard, watch := watch }, false)
    | (keyboard, some c) =>
      (v.shell.guiHandleChar rest c).map fun shell =>
        ({ v with keyboard := keyboard, shell := shell, watch := watch }, true)
  | timer, v => some ({ v with systemTicks := v.systemTicks + 1 }, v.mouse.vgaActive)

namespace DesktopCanvas

/-- A call that draws into `double_buffer`. -/
def drawn : DesktopCanvas → (Frame → Frame) → DesktopCanvas
  | ⟨⟨b, vram⟩, termX, termY, promptY⟩, f => ⟨⟨f b, vram⟩, termX, termY, promptY⟩

theorem drawn_vram (c : DesktopCanvas) (f : Frame → Frame) :
    (c.drawn f).video.vram = c.video.vram := rfl

end DesktopCanvas

/-- The C string in `gui_cmd_buffer`. -/
def GuiShell.cmd (s : GuiShell) : CString := .ofBuffer ((List.range 100).map s.memory)

/-- The window and its title. -/
def windowStages (font : Font) : List (DesktopVars → DesktopCanvas → DesktopCanvas) :=
  [fun _ c => c.drawn fun b => b.drawRect 0 0 320 200 0x01,
    fun v c => c.drawn fun b =>
      b.drawRect (v.mouse.winX + 3) (v.mouse.winY + 3) v.mouse.winW v.mouse.winH 0x00,
    fun v c => c.drawn fun b =>
      b.drawRect v.mouse.winX v.mouse.winY v.mouse.winW v.mouse.winH 0x07,
    fun v c => c.drawn fun b => b.drawRect v.mouse.winX v.mouse.winY v.mouse.winW 10 0x03,
    fun v c => c.drawn fun b => b.drawStringGui font (v.mouse.winX + 4) (v.mouse.winY + 1)
      (.ofLiteral "NEWREX TERMINAL") 0x0F,
    fun v c => { c with termX := v.mouse.winX + 4 },
    fun v c => { c with termY := v.mouse.winY + 14 },
    fun v c => c.drawn fun b =>
      b.drawRect c.termX c.termY (v.mouse.winW - 8) (v.mouse.winH - 18) 0x00,
    fun _ c => c.drawn fun b => b.drawStringGui font (c.termX + 4) (c.termY + 4)
      (.ofLiteral "WATCH 0xB8000:") 0x0B]

/-- A row of the watched memory. -/
def watchStage (font : Font) (i : Nat) (v : DesktopVars) (c : DesktopCanvas) : DesktopCanvas :=
  c.drawn fun b => drawBits font b (c.termX + 4) (c.termY + 18 + (i * 10 : Nat)) (v.watch (i * 2))

/-- The pointer and the command line. -/
def promptStages (font : Font) : List (DesktopVars → DesktopCanvas → DesktopCanvas) :=
  [fun v c => c.drawn fun b => b.drawRect v.mouse.mouseX v.mouse.mouseY 3 3 0x0F,
    fun v c => { c with promptY := c.termY + v.mouse.winH - 28 },
    fun _ c => c.drawn fun b =>
      b.drawStringGui font (c.termX + 4) c.promptY (.ofLiteral "root@nwm:~#") 0x0C,
    fun v c => c.drawn fun b =>
      b.drawStringGui font (c.termX + 4 + 12 * 8) c.promptY v.shell.cmd 0x0F,
    fun v c => if v.systemTicks % 10 < 5 then
        c.drawn fun b => b.drawCharGui font (c.termX + 4 + (12 + v.shell.guiCmdLen) * 8)
          c.promptY 0x5F 0x0F
      else c]

/-- The stages of `render_gui` in front of the last one. -/
def drawingStages (font : Font) : List (DesktopVars → DesktopCanvas → DesktopCanvas) :=
  windowStages font ++ [0, 1, 2, 3, 4].map (watchStage font) ++ promptStages font

/-- The copy to the video memory. -/
def blast (c : DesktopCanvas) : DesktopCanvas :=
  { c with video := { c.video with
      vram := fun i => if i < 64000 then c.video.doubleBuffer i else c.video.vram i } }

/-- The loop of `vgamode` and its interrupts. -/
def desktop (font : Font) (rest : GuiShell.Rest) :
    System DesktopVars DesktopCanvas DesktopInterrupt where
  stages := drawingStages font ++ [fun _ => blast]
  handle := DesktopInterrupt.handle rest

/-- What the screen shows. -/
def DesktopCanvas.screen (c : DesktopCanvas) : Fin 64000 → UInt8 := fun i => c.video.vram i

/-- What `render_gui` reads of the keyboard and the timer. -/
def DesktopVars.shown (v : DesktopVars) : Shown :=
  ⟨v.shell.cmd, v.shell.guiCmdLen, v.watch, v.systemTicks⟩

/-- The stages in front of the copy. -/
theorem drawingStages_draw (font : Font) (v : DesktopVars) (c : DesktopCanvas) :
    ((drawingStages font).foldl (fun c stage => stage v c) c).video.doubleBuffer =
      (renderGui font v.mouse v.shown c.video).doubleBuffer := by
  obtain ⟨⟨b, vram⟩, termX, termY, promptY⟩ := c
  have hticks : v.shown.systemTicks % 10 < 5 ↔ v.systemTicks % 10 < 5 := Iff.rfl
  rw [renderGui, if_pos v.active]
  dsimp only
  -- Each step needs its proof: by computation the drawing routines would be unfolded.
  simp -implicitDefEqProofs only [drawingStages, windowStages, promptStages, watchStage,
    List.foldl_append, List.map_cons, List.map_nil, List.foldl_cons, List.foldl_nil,
    DesktopCanvas.drawn]
  split
  case isTrue hblink => rw [if_pos (hticks.mpr hblink), DesktopVars.shown]
  case isFalse hblink => rw [if_neg (hblink ∘ hticks.mp), DesktopVars.shown]

/-- Only the copy changes the video memory. -/
theorem drawingStages_vram (font : Font) : ∀ stage, stage ∈ drawingStages font →
    ∀ v c, (stage v c).video.vram = c.video.vram := by
  simp only [drawingStages, windowStages, watchStage, promptStages, List.forall_mem_append,
    List.forall_mem_cons, List.forall_mem_map, DesktopCanvas.drawn_vram, implies_true,
    List.not_mem_nil, false_implies, and_true, true_and]
  intro v c
  split
  · exact DesktopCanvas.drawn_vram c _
  · rfl

theorem foldl_vram {stages : List (DesktopVars → DesktopCanvas → DesktopCanvas)}
    (h : ∀ stage, stage ∈ stages → ∀ v c, (stage v c).video.vram = c.video.vram)
    (v : DesktopVars) (c : DesktopCanvas) :
    (stages.foldl (fun c stage => stage v c) c).video.vram = c.video.vram := by
  induction stages generalizing c with
  | nil => rfl
  | cons stage stages ih =>
    rw [List.foldl_cons, ih fun st hst => h st (List.mem_cons_of_mem _ hst)]
    exact h stage List.mem_cons_self v c

theorem blast_video (c : DesktopCanvas) : (blast c).video = ⟨c.video.doubleBuffer, fun i =>
    if i < 64000 then c.video.doubleBuffer i else c.video.vram i⟩ := rfl

section Loop

variable {rest : GuiShell.Rest}

/-- A drawing without interrupts is `render_gui`. -/
theorem desktop_draw (font : Font) (v : DesktopVars) (c : DesktopCanvas) :
    ((desktop font rest).draw v c).video = renderGui font v.mouse v.shown c.video := by
  have hblast : (desktop font rest).draw v c =
      blast ((drawingStages font).foldl (fun c stage => stage v c) c) := by
    rw [System.draw, desktop, List.foldl_append, List.foldl_cons, List.foldl_nil]
  rw [hblast, renderGui_eq_blast font v.active, ← drawingStages_draw, blast_video,
    foldl_vram (drawingStages_vram font) v c]

/-- A frame on the screen. -/
theorem desktop_screen (v : DesktopVars) (c : DesktopCanvas) :
    ((desktop font8x8 rest).draw v c).screen =
      fun i : Fin 64000 => v.mouse.shownColor (pixelColumn i) (pixelRow i) := by
  funext i
  show ((desktop font8x8 rest).draw v c).video.vram i = _
  rw [desktop_draw, (renderGui_frame v.active v.shown c.video i).2, if_pos i.isLt]

theorem desktop_regular : (desktop font8x8 rest).Regular DesktopCanvas.screen where
  inner := by
    intro k stage hstage hk v c
    have hlength : (desktop font8x8 rest).stages.length = (drawingStages font8x8).length + 1 :=
      List.length_append
    rw [hlength] at hk
    have hmem : stage ∈ drawingStages font8x8 := List.mem_of_getElem?
      ((List.getElem?_append_left (Nat.lt_of_succ_lt_succ hk)).symm.trans hstage)
    funext i
    exact congrFun (drawingStages_vram font8x8 stage hmem v c) i
  picture v c c' := (desktop_screen v c).trans (desktop_screen v c').symm

/-! ## Interrupts that keep the picture -/

theorem drawCharGui_blank (b : Frame) (x y : Int) (c color : UInt8) :
    b.drawCharGui font8x8 x y c color = b := by
  rw [drawCharGui_eq_paint]
  funext i
  rw [paint, charLayer_blank, if_neg Bool.false_ne_true]

theorem drawStringGui_blank (b : Frame) (x y : Int) (str : CString) (color : UInt8) :
    b.drawStringGui font8x8 x y str color = b := by
  rw [drawStringGui_eq_paintAll, paintAll_of_blank (lineLayers_blank _ _ _ _ _)]

theorem drawBits_blank (b : Frame) (x y : Int) (val : UInt8) : drawBits font8x8 b x y val = b := by
  rw [drawBits_eq_paintAll, paintAll_of_blank (bitLayers_blank _ _ _)]

theorem cursor_blank (v : DesktopVars) (c : DesktopCanvas) :
    (if v.systemTicks % 10 < 5 then c.drawn fun b => b else c) = c := by
  split
  · rfl
  · rfl

/-- With the kernel's font, the stages only read the mouse's variables. -/
theorem desktop_stages_congr {v v' : DesktopVars} (h : v'.mouse = v.mouse) :
    ∀ stage, stage ∈ (desktop font8x8 rest).stages → ∀ c, stage v' c = stage v c := by
  simp only [desktop, drawingStages, windowStages, watchStage, promptStages,
    List.forall_mem_append, List.forall_mem_cons, List.forall_mem_map, h, drawStringGui_blank,
    drawBits_blank, drawCharGui_blank, implies_true, List.not_mem_nil, false_implies, and_true,
    true_and]
  exact fun c => (cursor_blank v' c).trans (cursor_blank v c).symm

/-- The interrupts that are not from the mouse. -/
def DesktopInterrupt.Still : DesktopInterrupt → Prop
  | mouse _ _ => False
  | key _ _ => True
  | timer => True

/-- The timer, and a key with a character. -/
def DesktopInterrupt.Wakes (v : DesktopVars) : DesktopInterrupt → Prop
  | mouse _ _ => False
  | key scancode _ => (v.keyboard.decode scancode).2 ≠ none
  | timer => True

/-- They leave the mouse's variables alone. -/
theorem DesktopInterrupt.Still.mouse {i : DesktopInterrupt} (h : i.Still) {v v' : DesktopVars}
    {flag : Bool} (hv : i.handle rest v = some (v', flag)) : v'.mouse = v.mouse := by
  cases i with
  | mouse => exact h.elim
  | key scancode watch =>
    rw [handle] at hv
    split at hv
    · cases hv
      rfl
    · obtain ⟨shell, -, hshell⟩ := Option.map_eq_some_iff.mp hv
      cases hshell
      rfl
  | timer =>
    cases hv
    rfl

theorem DesktopInterrupt.Still.quiet {i : DesktopInterrupt} (h : i.Still) :
    (desktop font8x8 rest).Quiet i :=
  fun _ _ _ hv => desktop_stages_congr (h.mouse hv)

/-- A handler that returns has set the flag, for the timer and for a character. -/
theorem DesktopInterrupt.Wakes.flag {i : DesktopInterrupt} {v v' : DesktopVars} {flag : Bool}
    (h : i.Wakes v) (hv : i.handle rest v = some (v', flag)) : flag = true := by
  cases i with
  | mouse => exact h.elim
  | key scancode watch =>
    rw [handle] at hv
    split at hv
    · next heq =>
      rw [Wakes, heq] at h
      exact absurd rfl h
    · obtain ⟨shell, -, hshell⟩ := Option.map_eq_some_iff.mp hv
      cases hshell
      rfl
  | timer =>
    cases hv
    exact v.active

theorem run_mouse {es : List (Event DesktopInterrupt)}
    (hes : ∀ i, Event.interrupt i ∈ es → i.Still) {s : State DesktopVars DesktopCanvas}
    (hruns : ((desktop font8x8 rest).run s es).pc ≠ .stopped) :
    ((desktop font8x8 rest).run s es).data.mouse = s.data.mouse := by
  induction es generalizing s with
  | nil => rfl
  | cons e es ih =>
    obtain ⟨hs, -, hreturns⟩ := System.running hruns
    have hstep : ((desktop font8x8 rest).step s e).data.mouse = s.data.mouse := by
      cases e with
      | loop => exact congrArg DesktopVars.mouse (System.step_loop_data s)
      | interrupt i =>
        obtain ⟨v, flag, hv⟩ := hreturns i rfl
        have hmouse := (hes i List.mem_cons_self).mouse hv
        rw [System.step, if_neg hs, hv]
        exact hmouse
    exact (ih (fun i hi => hes i (List.mem_cons_of_mem _ hi)) hruns).trans hstep

/-- Nobody moves the mouse any more, and every handler returns. After a round of the loop, one
tick of the timer or one character and one more round, whenever these come, the screen shows the
frame. Only between the test of `frame_ready` and the halt the tick comes too late. -/
theorem desktop_catches_up (s : State DesktopVars DesktopCanvas)
    {xs ys : List (Event DesktopInterrupt)} {i : DesktopInterrupt}
    (hstill : ∀ j, Event.interrupt j ∈ xs ++ .interrupt i :: ys → j.Still)
    (hwakes : i.Wakes ((desktop font8x8 rest).run s xs).data)
    (hpc : ((desktop font8x8 rest).run s xs).pc ≠ .halting)
    (hxs : 22 ≤ loops xs) (hys : 21 ≤ loops ys)
    (hruns : ((desktop font8x8 rest).run s (xs ++ .interrupt i :: ys)).pc ≠ .stopped)
    (p : Fin 64000) :
    ((desktop font8x8 rest).run s (xs ++ .interrupt i :: ys)).canvas.screen p =
      s.data.mouse.shownColor (pixelColumn p) (pixelRow p) := by
  have hset : ∃ v, (desktop font8x8 rest).handle i ((desktop font8x8 rest).run s xs).data =
      some (v, true) := by
    have hrest := hruns
    rw [System.run_append] at hrest
    obtain ⟨-, -, hreturns⟩ := System.running hrest
    obtain ⟨v, flag, hv⟩ := hreturns i rfl
    exact ⟨v, by rw [← hwakes.flag hv]; exact hv⟩
  obtain ⟨v, hv⟩ := hset
  have hshown := System.shown_run desktop_regular (fun j hj => (hstill j hj).quiet) hv hpc hxs hys
    hruns
  have hscreen := hshown s.canvas
  rw [desktop_screen, run_mouse hstill hruns] at hscreen
  exact congrFun hscreen p

/-- The desktop before the first interrupt. -/
def sampleVars : DesktopVars where
  mouse := sampleDesktop
  keyboard := ⟨false, false⟩
  shell := ⟨fun _ => 0, 0, History.empty, []⟩
  watch := fun _ => 0
  systemTicks := 0
  active := rfl

def blankCanvas : DesktopCanvas := ⟨⟨fun _ => 0, fun _ => 0⟩, 0, 0, 0⟩

/-- The key `a` wakes the loop, and the pointer is at (160, 100). -/
theorem desktop_catches_up_sample :
    ((desktop font8x8 sampleRest).run ⟨sampleVars, blankCanvas, false, .halted⟩
      (List.replicate 22 .loop ++ .interrupt (.key 0x1E fun _ => 0) ::
        List.replicate 21 .loop)).canvas.screen 32160 = 0x0F := by
  have hsleeps := System.run_halted (M := desktop font8x8 sampleRest)
    (s := ⟨sampleVars, blankCanvas, false, .halted⟩) rfl 22
  refine (desktop_catches_up _ ?_ ?_ ?_ (by decide) (by decide) ?_ 32160).trans (by decide)
  · intro j hj
    rcases List.mem_append.mp hj with hj | hj
    · cases List.eq_of_mem_replicate hj
    · rcases List.mem_cons.mp hj with hj | hj
      · cases hj
        exact trivial
      · cases List.eq_of_mem_replicate hj
  · rw [hsleeps]
    show (Keyboard.decode ⟨false, false⟩ 0x1E).2 ≠ none
    decide
  · rw [hsleeps]
    exact nofun
  · obtain ⟨v, hv⟩ : ∃ v, (desktop font8x8 sampleRest).handle (.key 0x1E fun _ => 0) sampleVars =
        some (v, true) := ⟨_, rfl⟩
    have hstep := System.step_interrupt_halted (M := desktop font8x8 sampleRest)
      (s := ⟨sampleVars, blankCanvas, false, .halted⟩) hv rfl
    rw [System.run_append, hsleeps, System.run_cons, hstep]
    exact System.run_loops_running (fun hpc => by cases hpc) 21

end Loop

/-! ## Movements that are not seen -/

section Forgetting

variable {rest : GuiShell.Rest}

theorem handle_winH {i : DesktopInterrupt} {v v' : DesktopVars} {flag : Bool}
    (h : i.handle rest v = some (v', flag)) : v'.mouse.winH = v.mouse.winH := by
  cases i with
  | mouse status d =>
    rw [DesktopInterrupt.handle] at h
    split at h
    case h_1 m hm =>
      cases h
      exact (Mouse.mouseIsrHandler_kept hm).2
    case h_2 => cases h
  | key scancode watch =>
    have hstill : (DesktopInterrupt.key scancode watch).Still := trivial
    rw [hstill.mouse h]
  | timer =>
    cases h
    rfl

/-- Behind the pointer, the stages only read the height of the window. -/
theorem desktop_late_stages {v v' : DesktopVars} (h : v'.mouse.winH = v.mouse.winH) {k : Nat}
    (hk : 15 ≤ k) :
    ∀ stage, stage ∈ (desktop font8x8 rest).stages.drop k → ∀ c, stage v' c = stage v c := by
  have hlate : ∀ stage, stage ∈ (promptStages font8x8).tail ++ [fun _ => blast] →
      ∀ c, stage v' c = stage v c := by
    simp only [promptStages, List.tail_cons, List.forall_mem_append, List.forall_mem_cons, h,
      drawStringGui_blank, drawCharGui_blank, implies_true, List.not_mem_nil, false_implies,
      and_true, true_and]
    exact fun c => (cursor_blank v' c).trans (cursor_blank v c).symm
  intro stage hstage
  obtain ⟨j, rfl⟩ := Nat.exists_eq_add_of_le hk
  rw [← List.drop_drop] at hstage
  exact hlate stage (List.mem_of_mem_drop hstage)

/-- An interrupt behind the pointer's stage, a movement of the mouse say, whose handler returns.
The loop completes the frame of the old variables, clears the flag that the interrupt has set, and
sleeps. -/
theorem desktop_forgets {v v' : DesktopVars} (c : DesktopCanvas) (ready : Bool)
    {i : DesktopInterrupt} {flag : Bool} (h : i.handle rest v = some (v', flag)) {k n : Nat}
    (hk : 15 ≤ k) (hn : 7 ≤ n) :
    ∃ c', (desktop font8x8 rest).run ⟨v, (desktop font8x8 rest).first k v c, ready, .draw k⟩
        (.interrupt i :: List.replicate n .loop) = ⟨v', c', false, .halted⟩ ∧
      ∀ p, c'.screen p = v.mouse.shownColor (pixelColumn p) (pixelRow p) := by
  have hstep := System.step_interrupt (M := desktop font8x8 rest)
    (s := ⟨v, (desktop font8x8 rest).first k v c, ready, .draw k⟩) h nofun nofun
  refine ⟨(desktop font8x8 rest).draw v c, ?_, fun p => congrFun (desktop_screen v c) p⟩
  rw [System.run, List.foldl_cons, hstep]
  refine System.forgotten rfl rfl (desktop_late_stages (handle_winH h) hk) ?_
  show 20 - k + 2 ≤ n
  omega

end Forgetting

/-- A packet in front of its last byte: a movement of five to the right and three up. -/
def movingVars : DesktopVars :=
  { sampleVars with
    mouse := { sampleDesktop with
      mouseCycle := 2
      mouseByte := fun i => if i = 0 then 0x08 else 5 }
    active := rfl }

/-- The pointer is at (165, 97), and the loop sleeps with the pointer at (160, 100) on the
screen. -/
theorem desktop_forgets_sample :
    ∃ s, (desktop font8x8 sampleRest).run
        ⟨movingVars, (desktop font8x8 sampleRest).first 15 movingVars blankCanvas, true, .draw 15⟩
        (.interrupt (.mouse 0x21 3) :: List.replicate 7 .loop) = s ∧
      s.pc = .halted ∧ s.ready = false ∧ s.data.mouse.mouseX = 165 ∧ s.data.mouse.mouseY = 97 ∧
      s.canvas.screen 32160 = 0x0F ∧ s.canvas.screen 31205 = 0x00 := by
  have hreturns : (((DesktopInterrupt.mouse 0x21 3).handle sampleRest movingVars).map fun r =>
      (r.1.mouse.mouseX, r.1.mouse.mouseY)) = some (165, 97) := by decide
  obtain ⟨⟨v, flag⟩, hv, hposition⟩ := Option.map_eq_some_iff.mp hreturns
  obtain ⟨hx, hy⟩ := Prod.mk.inj hposition
  obtain ⟨c', hrun, hscreen⟩ := desktop_forgets blankCanvas true hv (Nat.le_refl 15)
    (Nat.le_refl 7)
  exact ⟨_, hrun, rfl, rfl, hx, hy, (hscreen _).trans (by decide),
    (hscreen _).trans (by decide)⟩

end Newrex
