import Newrex.Console
import Newrex.Gui.Mouse
import Newrex.Lib.Painting

/-!
# The window manager's frames

`render_gui` of `kernel/kernel.c` and the routines that it draws with. It paints a desktop, a
window, the memory that it watches, the command line and the pointer into `double_buffer`, and
copies that to the video memory.

* `renderGui_eq_layers`: the loops paint layers, of which the last one is seen;
* `renderGui_frame`: what every pixel of the screen shows. The kernel's `font8x8` is an array of
  zeros, so that no text is seen: not the title, not the watched memory, not the command line;
* `Mouse.run_desktop`: along every run of the mouse the white pixels are the pointer, and the
  window stays in its reach, although it can leave the screen.
-/

namespace Newrex

open Painting

/-- The bytes of `double_buffer`, or of the video memory from 0xA0000 on. -/
abbrev Frame := Nat → UInt8

/-- `font8x8`: the rows of a character. -/
abbrev Font := UInt8 → Nat → UInt8

/-- The kernel's own font. -/
def font8x8 : Font := fun _ _ => 0

/-! ## Drawing -/

namespace Frame

/-- `draw_pixel`. -/
def drawPixel (b : Frame) (x y : Int) (color : UInt8) : Frame :=
  if 0 ≤ x ∧ x < 320 ∧ 0 ≤ y ∧ y < 200 then Function.update b (y * 320 + x).toNat color else b

/-- `draw_rect`. -/
def drawRect (b : Frame) (x y w h : Int) (color : UInt8) : Frame :=
  (List.range h.toNat).foldl (fun b (i : Nat) =>
    (List.range w.toNat).foldl (fun b (j : Nat) => drawPixel b (x + j) (y + i) color) b) b

/-- `draw_char_gui`. -/
def drawCharGui (font : Font) (b : Frame) (x y : Int) (c color : UInt8) : Frame :=
  (List.range 8).foldl (fun b (row : Nat) =>
    (List.range 8).foldl (fun b (col : Nat) =>
      if font c row &&& (1 <<< UInt8.ofNat (7 - col)) ≠ 0 then
        drawPixel b (x + col) (y + row) color
      else b) b) b

/-- The loop of `draw_string_gui`; `x` is the start of the line. -/
def drawLine (font : Font) (x : Int) (color : UInt8) :
    List UInt8 → (b : Frame) → (currentX y : Int) → Frame
  | [], b, _, _ => b
  | c :: str, b, currentX, y =>
    if c = 10 then drawLine font x color str b x (y + 10)
    else drawLine font x color str (drawCharGui font b currentX y c color) (currentX + 8) y

/-- `draw_string_gui`. -/
def drawStringGui (font : Font) (b : Frame) (x y : Int) (str : CString) (color : UInt8) : Frame :=
  drawLine font x color str.chars b x y

end Frame

/-- `gui_cmd_buffer` up to its NUL, `gui_cmd_len`, the bytes from 0xB8000 on and
`system_ticks`. -/
structure Shown where
  cmd : CString
  cmdLen : Nat
  watch : Nat → UInt8
  systemTicks : UInt32

/-- `double_buffer` and the video memory. -/
structure Video where
  doubleBuffer : Frame
  vram : Frame

/-- A row of `WATCH 0xB8000:`, one character for each bit. -/
def drawBits (font : Font) (b : Frame) (x y : Int) (val : UInt8) : Frame :=
  [7, 6, 5, 4, 3, 2, 1, 0].foldl (fun b bit =>
    let set := val &&& (1 <<< UInt8.ofNat bit) ≠ 0
    b.drawCharGui font (x + 8 * (7 - bit : Nat)) y (if set then 0x2B else 0x78)
      (if set then 0x0A else 0x08)) b

/-- `render_gui`. -/
def renderGui (font : Font) (s : Mouse) (t : Shown) (v : Video) : Video :=
  if s.vgaActive then
    let b := v.doubleBuffer.drawRect 0 0 320 200 0x01
    let b := b.drawRect (s.winX + 3) (s.winY + 3) s.winW s.winH 0x00
    let b := b.drawRect s.winX s.winY s.winW s.winH 0x07
    let b := b.drawRect s.winX s.winY s.winW 10 0x03
    let b := b.drawStringGui font (s.winX + 4) (s.winY + 1) (.ofLiteral "NEWREX TERMINAL") 0x0F
    let termX := s.winX + 4
    let termY := s.winY + 14
    let b := b.drawRect termX termY (s.winW - 8) (s.winH - 18) 0x00
    let b := b.drawStringGui font (termX + 4) (termY + 4) (.ofLiteral "WATCH 0xB8000:") 0x0B
    let b := [0, 1, 2, 3, 4].foldl (fun b i =>
      drawBits font b (termX + 4) (termY + 18 + (i * 10 : Nat)) (t.watch (i * 2))) b
    let b := b.drawRect s.mouseX s.mouseY 3 3 0x0F
    let promptY := termY + s.winH - 28
    let b := b.drawStringGui font (termX + 4) promptY (.ofLiteral "root@nwm:~#") 0x0C
    let b := b.drawStringGui font (termX + 4 + 12 * 8) promptY t.cmd 0x0F
    let b := if t.systemTicks % 10 < 5 then
        b.drawCharGui font (termX + 4 + (12 + t.cmdLen) * 8) promptY 0x5F 0x0F
      else b
    ⟨b, fun i => if i < 64000 then b i else v.vram i⟩
  else v

/-- The frame is copied as it is. -/
theorem renderGui_eq_blast (font : Font) {s : Mouse} (hactive : s.vgaActive = true) (t : Shown)
    (v : Video) :
    renderGui font s t v = ⟨(renderGui font s t v).doubleBuffer, fun i =>
      if i < 64000 then (renderGui font s t v).doubleBuffer i else v.vram i⟩ := by
  rw [renderGui, if_pos hactive]

/-! ## Layers -/

/-- The column and the row of a byte of the frame. -/
def pixelColumn (i : Nat) : Int := (i % 320 : Nat)
def pixelRow (i : Nat) : Int := (i / 320 : Nat)

/-- The pixels of the screen with a property of their column and row. -/
def onScreen (P : Int → Int → Bool) (i : Nat) : Bool :=
  decide (i < 64000) && P (pixelColumn i) (pixelRow i)

def rectLayer (x y w h : Int) (color : UInt8) : Layer Nat UInt8 where
  covers := onScreen fun px py => decide (x ≤ px ∧ px < x + w ∧ y ≤ py ∧ py < y + h)
  color := color

def charLayer (font : Font) (x y : Int) (c color : UInt8) : Layer Nat UInt8 where
  covers := onScreen fun px py => decide (x ≤ px ∧ px < x + 8 ∧ y ≤ py ∧ py < y + 8) &&
    decide (font c (py - y).toNat &&& (1 <<< UInt8.ofNat (7 - (px - x).toNat)) ≠ 0)
  color := color

def lineLayers (font : Font) (x : Int) (color : UInt8) :
    List UInt8 → (currentX y : Int) → List (Layer Nat UInt8)
  | [], _, _ => []
  | c :: str, currentX, y =>
    if c = 10 then lineLayers font x color str x (y + 10)
    else charLayer font currentX y c color :: lineLayers font x color str (currentX + 8) y

theorem drawPixel_eq_paint (b : Frame) (x y : Int) (color : UInt8) :
    b.drawPixel x y color = paint b ⟨onScreen fun px py => decide (px = x ∧ py = y), color⟩ := by
  funext i
  have hcolumn : pixelColumn i = (i % 320 : Nat) := rfl
  have hrow : pixelRow i = (i / 320 : Nat) := rfl
  rw [Frame.drawPixel, paint]
  split
  case isTrue h =>
    have hiff : i = (y * 320 + x).toNat ↔ i < 64000 ∧ pixelColumn i = x ∧ pixelRow i = y := by
      rw [hcolumn, hrow]
      omega
    rw [Function.update_apply]
    simp only [onScreen, Bool.and_eq_true, decide_eq_true_eq, hiff]
  case isFalse h =>
    have hout : ¬ (i < 64000 ∧ pixelColumn i = x ∧ pixelRow i = y) := by
      rw [hcolumn, hrow]
      omega
    simp only [onScreen, Bool.and_eq_true, decide_eq_true_eq, if_neg hout]

/-- The loops of `draw_rect`. -/
theorem drawRect_eq_paint (b : Frame) (x y w h : Int) (color : UInt8) :
    b.drawRect x y w h color = paint b (rectLayer x y w h color) := by
  simp only [Frame.drawRect, drawPixel_eq_paint, foldl_paint, rectLayer]
  congr 2
  funext i
  refine Bool.eq_iff_iff.mpr ?_
  simp only [List.any_eq_true, List.mem_range, onScreen, Bool.and_eq_true, decide_eq_true_eq]
  constructor
  · rintro ⟨dy, hdy, dx, hdx, hi, hpx, hpy⟩
    omega
  · rintro ⟨hi, hleft, hright, htop, hbottom⟩
    exact ⟨(pixelRow i - y).toNat, by omega, (pixelColumn i - x).toNat, by omega, hi, by omega,
      by omega⟩

/-- The loops of `draw_char_gui`. -/
theorem drawCharGui_eq_paint (font : Font) (b : Frame) (x y : Int) (c color : UInt8) :
    b.drawCharGui font x y c color = paint b (charLayer font x y c color) := by
  have hpiece (b : Frame) (dy dx : Nat) :
      (if font c dy &&& (1 <<< UInt8.ofNat (7 - dx)) ≠ 0 then b.drawPixel (x + dx) (y + dy) color
        else b) =
        paint b ⟨fun i => decide (font c dy &&& (1 <<< UInt8.ofNat (7 - dx)) ≠ 0) &&
          onScreen (fun px py => decide (px = x + dx ∧ py = y + dy)) i, color⟩ := by
    split
    case isTrue h => simp only [drawPixel_eq_paint, h, ne_eq, not_false_eq_true, decide_true,
      Bool.true_and]
    case isFalse h =>
      funext i
      simp only [paint, decide_eq_false h, Bool.false_and, if_neg Bool.false_ne_true]
  simp only [Frame.drawCharGui, hpiece, foldl_paint, charLayer]
  congr 2
  funext i
  refine Bool.eq_iff_iff.mpr ?_
  simp only [List.any_eq_true, List.mem_range, onScreen, Bool.and_eq_true, decide_eq_true_eq]
  constructor
  · rintro ⟨dy, hdy, dx, hdx, hbit, hi, hpx, hpy⟩
    have hdx' : (pixelColumn i - x).toNat = dx := by omega
    have hdy' : (pixelRow i - y).toNat = dy := by omega
    rw [hdx', hdy']
    exact ⟨hi, ⟨by omega, by omega, by omega, by omega⟩, hbit⟩
  · rintro ⟨hi, ⟨hleft, hright, htop, hbottom⟩, hbit⟩
    exact ⟨(pixelRow i - y).toNat, by omega, (pixelColumn i - x).toNat, by omega, hbit, hi,
      by omega, by omega⟩

theorem drawLine_eq_paintAll (font : Font) (x : Int) (color : UInt8) (str : List UInt8)
    (b : Frame) (currentX y : Int) :
    Frame.drawLine font x color str b currentX y =
      paintAll b (lineLayers font x color str currentX y) := by
  induction str generalizing b currentX y with
  | nil => rfl
  | cons c str ih =>
    rw [Frame.drawLine, lineLayers]
    split
    · exact ih b x (y + 10)
    · rw [ih, drawCharGui_eq_paint]
      rfl

theorem drawStringGui_eq_paintAll (font : Font) (b : Frame) (x y : Int) (str : CString)
    (color : UInt8) : b.drawStringGui font x y str color =
      paintAll b (lineLayers font x color str.chars x y) :=
  drawLine_eq_paintAll font x color str.chars b x y

/-- The characters of a row of `WATCH 0xB8000:`. -/
def bitLayers (font : Font) (x y : Int) (val : UInt8) : List (Layer Nat UInt8) :=
  [7, 6, 5, 4, 3, 2, 1, 0].map fun bit =>
    let set := val &&& (1 <<< UInt8.ofNat bit) ≠ 0
    charLayer font (x + 8 * (7 - bit : Nat)) y (if set then 0x2B else 0x78)
      (if set then 0x0A else 0x08)

theorem drawBits_eq_paintAll (font : Font) (b : Frame) (x y : Int) (val : UInt8) :
    drawBits font b x y val = paintAll b (bitLayers font x y val) := by
  simp only [drawBits, drawCharGui_eq_paint]
  rfl

theorem foldl_paintAll {ι : Type} (b : Frame) (l : List ι)
    (layers : ι → List (Layer Nat UInt8)) :
    l.foldl (fun b i => paintAll b (layers i)) b = paintAll b (l.flatMap layers) := by
  induction l generalizing b with
  | nil => rfl
  | cons i l ih => rw [List.foldl_cons, ih, List.flatMap_cons, paintAll_append]

/-- The desktop, the window with its shadow and its title bar. -/
def windowLayers (s : Mouse) : List (Layer Nat UInt8) :=
  [rectLayer 0 0 320 200 0x01, rectLayer (s.winX + 3) (s.winY + 3) s.winW s.winH 0x00,
    rectLayer s.winX s.winY s.winW s.winH 0x07, rectLayer s.winX s.winY s.winW 10 0x03]

def titleLayers (font : Font) (s : Mouse) : List (Layer Nat UInt8) :=
  lineLayers font (s.winX + 4) 0x0F (CString.ofLiteral "NEWREX TERMINAL").chars (s.winX + 4)
    (s.winY + 1)

def terminalLayer (s : Mouse) : Layer Nat UInt8 :=
  rectLayer (s.winX + 4) (s.winY + 14) (s.winW - 8) (s.winH - 18) 0x00

/-- The watched memory. -/
def watchLayers (font : Font) (s : Mouse) (watch : Nat → UInt8) : List (Layer Nat UInt8) :=
  lineLayers font (s.winX + 4 + 4) 0x0B (CString.ofLiteral "WATCH 0xB8000:").chars
      (s.winX + 4 + 4) (s.winY + 14 + 4) ++
    [0, 1, 2, 3, 4].flatMap fun i =>
      bitLayers font (s.winX + 4 + 4) (s.winY + 14 + 18 + (i * 10 : Nat)) (watch (i * 2))

def pointerLayer (s : Mouse) : Layer Nat UInt8 := rectLayer s.mouseX s.mouseY 3 3 0x0F

/-- The command line. -/
def promptLayers (font : Font) (s : Mouse) (t : Shown) : List (Layer Nat UInt8) :=
  let promptY := s.winY + 14 + s.winH - 28
  lineLayers font (s.winX + 4 + 4) 0x0C (CString.ofLiteral "root@nwm:~#").chars
      (s.winX + 4 + 4) promptY ++
    lineLayers font (s.winX + 4 + 4 + 12 * 8) 0x0F t.cmd.chars (s.winX + 4 + 4 + 12 * 8) promptY ++
    if t.systemTicks % 10 < 5 then
      [charLayer font (s.winX + 4 + 4 + (12 + t.cmdLen) * 8) promptY 0x5F 0x0F]
    else []

/-- All layers of a frame, with any font. -/
theorem renderGui_eq_layers (font : Font) {s : Mouse} (hactive : s.vgaActive = true) (t : Shown)
    (v : Video) :
    (renderGui font s t v).doubleBuffer = paintAll v.doubleBuffer (windowLayers s ++
      titleLayers font s ++ [terminalLayer s] ++ watchLayers font s t.watch ++ [pointerLayer s] ++
      promptLayers font s t) := by
  rw [renderGui, if_pos hactive]
  simp only [drawRect_eq_paint, drawStringGui_eq_paintAll, drawCharGui_eq_paint,
    drawBits_eq_paintAll, foldl_paintAll, paintAll_append, watchLayers, promptLayers]
  split <;> rfl

/-! ## The kernel's font -/

theorem charLayer_blank (x y : Int) (c color : UInt8) (i : Nat) :
    (charLayer font8x8 x y c color).covers i = false := by
  simp only [charLayer, onScreen, font8x8, UInt8.zero_and, ne_eq, not_true_eq_false, decide_false,
    Bool.and_false]

theorem lineLayers_blank (x : Int) (color : UInt8) (str : List UInt8) (currentX y : Int) :
    ∀ l, l ∈ lineLayers font8x8 x color str currentX y → ∀ i, l.covers i = false := by
  induction str generalizing currentX y with
  | nil => exact fun l hl => absurd hl List.not_mem_nil
  | cons c str ih =>
    intro l hl
    rw [lineLayers] at hl
    split at hl
    · exact ih x (y + 10) l hl
    · rcases List.mem_cons.mp hl with rfl | hl
      · exact charLayer_blank currentX y c color
      · exact ih (currentX + 8) y l hl

theorem titleLayers_blank (s : Mouse) :
    ∀ l, l ∈ titleLayers font8x8 s → ∀ i, l.covers i = false :=
  lineLayers_blank _ _ _ _ _

theorem bitLayers_blank (x y : Int) (val : UInt8) :
    ∀ l, l ∈ bitLayers font8x8 x y val → ∀ i, l.covers i = false := by
  intro l hl
  obtain ⟨bit, -, rfl⟩ := List.mem_map.mp hl
  exact charLayer_blank _ _ _ _

theorem watchLayers_blank (s : Mouse) (watch : Nat → UInt8) :
    ∀ l, l ∈ watchLayers font8x8 s watch → ∀ i, l.covers i = false := by
  intro l hl
  rcases List.mem_append.mp hl with hl | hl
  · exact lineLayers_blank _ _ _ _ _ l hl
  · obtain ⟨i, -, hl⟩ := List.mem_flatMap.mp hl
    exact bitLayers_blank _ _ _ l hl

theorem promptLayers_blank (s : Mouse) (t : Shown) :
    ∀ l, l ∈ promptLayers font8x8 s t → ∀ i, l.covers i = false := by
  intro l hl
  rcases List.mem_append.mp hl with hl | hl
  · rcases List.mem_append.mp hl with hl | hl
    · exact lineLayers_blank _ _ _ _ _ l hl
    · exact lineLayers_blank _ _ _ _ _ l hl
  · split at hl
    · rw [List.mem_singleton.mp hl]
      exact charLayer_blank _ _ _ _
    · cases hl

/-- A rectangle with the given corner, width and height. -/
def InRect (x y w h px py : Int) : Prop := x ≤ px ∧ px < x + w ∧ y ≤ py ∧ py < y + h

instance (x y w h px py : Int) : Decidable (InRect x y w h px py) :=
  inferInstanceAs (Decidable (_ ∧ _))

namespace Mouse

def Pointer (s : Mouse) : Int → Int → Prop := InRect s.mouseX s.mouseY 3 3
def Terminal (s : Mouse) : Int → Int → Prop :=
  InRect (s.winX + 4) (s.winY + 14) (s.winW - 8) (s.winH - 18)
def TitleBar (s : Mouse) : Int → Int → Prop := InRect s.winX s.winY s.winW 10
def Window (s : Mouse) : Int → Int → Prop := InRect s.winX s.winY s.winW s.winH
def Shadow (s : Mouse) : Int → Int → Prop := InRect (s.winX + 3) (s.winY + 3) s.winW s.winH

instance (s : Mouse) (px py : Int) : Decidable (s.Pointer px py) :=
  inferInstanceAs (Decidable (InRect _ _ _ _ _ _))
instance (s : Mouse) (px py : Int) : Decidable (s.Terminal px py) :=
  inferInstanceAs (Decidable (InRect _ _ _ _ _ _))
instance (s : Mouse) (px py : Int) : Decidable (s.TitleBar px py) :=
  inferInstanceAs (Decidable (InRect _ _ _ _ _ _))
instance (s : Mouse) (px py : Int) : Decidable (s.Window px py) :=
  inferInstanceAs (Decidable (InRect _ _ _ _ _ _))
instance (s : Mouse) (px py : Int) : Decidable (s.Shadow px py) :=
  inferInstanceAs (Decidable (InRect _ _ _ _ _ _))

/-- What a pixel shows: the pointer is in front, and the terminal in front of the title bar. -/
def shownColor (s : Mouse) (px py : Int) : UInt8 :=
  if s.Pointer px py then 0x0F
  else if s.Terminal px py then 0x00
  else if s.TitleBar px py then 0x03
  else if s.Window px py then 0x07
  else if s.Shadow px py then 0x00
  else 0x01

end Mouse

theorem paint_rectLayer (b : Frame) (x y w h : Int) (color : UInt8) {i : Nat} (hi : i < 64000) :
    paint b (rectLayer x y w h color) i =
      if InRect x y w h (pixelColumn i) (pixelRow i) then color else b i := by
  simp only [paint, rectLayer, onScreen, hi, decide_true, Bool.true_and, decide_eq_true_eq]
  rfl

theorem paint_rectLayer_of_ge (b : Frame) (x y w h : Int) (color : UInt8) {i : Nat}
    (hi : ¬ i < 64000) : paint b (rectLayer x y w h color) i = b i := by
  simp only [paint, rectLayer, onScreen, hi, decide_false, Bool.false_and, Bool.false_eq_true,
    if_false]

/-- The frame, pixel by pixel. It does not depend on the command line, the watched memory, the
time or the frame before, and no byte behind the screen is written. -/
theorem renderGui_frame {s : Mouse} (hactive : s.vgaActive = true) (t : Shown) (v : Video)
    (i : Nat) :
    (renderGui font8x8 s t v).doubleBuffer i =
        (if i < 64000 then s.shownColor (pixelColumn i) (pixelRow i) else v.doubleBuffer i) ∧
      (renderGui font8x8 s t v).vram i =
        if i < 64000 then s.shownColor (pixelColumn i) (pixelRow i) else v.vram i := by
  have hbuffer : (renderGui font8x8 s t v).doubleBuffer i =
      if i < 64000 then s.shownColor (pixelColumn i) (pixelRow i) else v.doubleBuffer i := by
    rw [renderGui_eq_layers font8x8 hactive, paintAll_append, paintAll_append, paintAll_append,
      paintAll_append, paintAll_append, paintAll_of_blank (promptLayers_blank s t),
      paintAll_of_blank (watchLayers_blank s t.watch), paintAll_of_blank (titleLayers_blank s)]
    show paint (paint (paint (paint (paint (paint v.doubleBuffer _) _) _) _) _) _ i = _
    split
    case isTrue hi =>
      have hdesktop : InRect 0 0 320 200 (pixelColumn i) (pixelRow i) := by
        refine ⟨Int.natCast_nonneg _, ?_, Int.natCast_nonneg _, ?_⟩
        · show ((i % 320 : Nat) : Int) < 0 + 320
          omega
        · show ((i / 320 : Nat) : Int) < 0 + 200
          omega
      rw [pointerLayer, terminalLayer]
      simp only [paint_rectLayer _ _ _ _ _ _ hi, if_pos hdesktop]
      rfl
    case isFalse hi =>
      rw [pointerLayer, terminalLayer]
      simp only [paint_rectLayer_of_ge _ _ _ _ _ _ hi]
  refine ⟨hbuffer, ?_⟩
  rw [renderGui_eq_blast font8x8 hactive]
  dsimp only
  rw [hbuffer]
  split
  case isTrue hi => rfl
  case isFalse => rfl

/-- The title bar, although the command line has been typed and the memory is not zero. -/
theorem renderGui_frame_sample :
    (renderGui font8x8 sampleDesktop ⟨.ofLiteral "help", 4, fun _ => 0xFF, 0⟩
      ⟨fun _ => 0, fun _ => 0⟩).vram 12890 = 0x03 := by
  rw [(renderGui_frame (s := sampleDesktop) rfl _ _ 12890).2, if_pos (by decide)]
  decide

/-! ## Runs of the mouse -/

namespace Mouse

/-- The pointer is on the screen, the window has its size, and the pointer is on the title bar
while it drags the window. -/
structure InReach (s : Mouse) : Prop where
  active : s.vgaActive = true
  x_range : 0 ≤ s.mouseX ∧ s.mouseX ≤ 319
  y_range : 0 ≤ s.mouseY ∧ s.mouseY ≤ 199
  width : s.winW = 160
  height : s.winH = 100
  grip : s.isDragging = true →
    (0 ≤ s.dragOffX ∧ s.dragOffX ≤ 160) ∧ 0 ≤ s.dragOffY ∧ s.dragOffY ≤ 10
  win_x : -160 ≤ s.winX ∧ s.winX ≤ 319
  win_y : -10 ≤ s.winY ∧ s.winY ≤ 199

namespace InReach

variable {s s' : Mouse}

theorem movePointer (h : s.InReach) : s.movePointer.InReach where
  active := h.active
  x_range := clampTo_range _ (by decide)
  y_range := clampTo_range _ (by decide)
  width := h.width
  height := h.height
  grip := h.grip
  win_x := h.win_x
  win_y := h.win_y

theorem grabWindow (h : s.InReach) : s.grabWindow.InReach := by
  rw [Mouse.grabWindow]
  split
  case isTrue hgrab =>
    obtain ⟨-, hleft, hright, htop, hbottom⟩ := hgrab
    rw [h.width] at hright
    refine ⟨h.active, h.x_range, h.y_range, h.width, h.height, fun _ => ?_, h.win_x, h.win_y⟩
    exact ⟨⟨Int.sub_nonneg_of_le hleft, by dsimp only; omega⟩, Int.sub_nonneg_of_le htop,
      by dsimp only; omega⟩
  case isFalse => exact h

theorem dragWindow (h : s.InReach) : s.dragWindow.InReach := by
  rw [Mouse.dragWindow]
  split
  case isTrue hdrag =>
    obtain ⟨hoffX, hoffY⟩ := h.grip hdrag
    have hx := h.x_range
    have hy := h.y_range
    exact ⟨h.active, hx, hy, h.width, h.height, h.grip, by dsimp only; omega, by dsimp only; omega⟩
  case isFalse => exact h

theorem handlePacket (h : s.InReach) (hs' : s.handlePacket = some s') : s'.InReach := by
  have hmoved := h.movePointer
  rw [Mouse.handlePacket] at hs'
  dsimp only at hs'
  split at hs'
  case isTrue =>
    split at hs'
    case isTrue => cases hs'
    case isFalse =>
      cases hs'
      exact hmoved.grabWindow.dragWindow
  case isFalse =>
    cases hs'
    refine dragWindow ⟨hmoved.active, hmoved.x_range, hmoved.y_range, hmoved.width,
      hmoved.height, fun hdrag => ?_, hmoved.win_x, hmoved.win_y⟩
    cases hdrag

theorem mouseIsrHandler (h : s.InReach) {status d : UInt8}
    (hs' : s.mouseIsrHandler status d = some s') : s'.InReach := by
  have hbytes (bytes : Nat → UInt8) (cycle : Nat) :
      ({ s with mouseByte := bytes, mouseCycle := cycle } : Mouse).InReach :=
    ⟨h.active, h.x_range, h.y_range, h.width, h.height, h.grip, h.win_x, h.win_y⟩
  rw [Mouse.mouseIsrHandler] at hs'
  split at hs'
  case isFalse =>
    cases hs'
    exact h
  case isTrue =>
    split at hs'
    case isTrue =>
      cases hs'
      exact h
    case isFalse =>
      dsimp only at hs'
      split at hs'
      case isTrue =>
        split at hs'
        case isTrue => exact handlePacket (hbytes _ _) hs'
        case isFalse =>
          cases hs'
          exact hbytes _ _
      case isFalse =>
        cases hs'
        exact hbytes _ _

theorem run (h : s.InReach) {calls : List (UInt8 × UInt8)} (hs' : s.run calls = some s') :
    s'.InReach := by
  induction calls generalizing s with
  | nil =>
    cases hs'
    exact h
  | cons c calls ih =>
    obtain ⟨t, ht, hs'⟩ := Option.bind_eq_some_iff.mp hs'
    exact ih (h.mouseIsrHandler ht) hs'

/-- The pointer is white, and nothing else is. -/
theorem shownColor_white (s : Mouse) (px py : Int) :
    s.shownColor px py = 0x0F ↔ s.Pointer px py := by
  rw [shownColor]
  split
  case isTrue hpointer => exact iff_of_true rfl hpointer
  case isFalse hpointer =>
    refine iff_of_false ?_ hpointer
    repeat' split
    all_goals decide

end InReach

/-- Along every run of the mouse, the white pixels of the screen are the pointer, and there is at
least one; the pointer can be moved on the title bar; and the bar itself is on the screen unless
the window was moved to the very edge. -/
theorem run_desktop {start s : Mouse} (h : start.InReach) {calls : List (UInt8 × UInt8)}
    (hrun : start.run calls = some s) (t : Shown) (v : Video) :
    (∀ i, i < 64000 →
      ((renderGui font8x8 s t v).vram i = 0x0F ↔ s.Pointer (pixelColumn i) (pixelRow i))) ∧
    (∃ i, i < 64000 ∧ (renderGui font8x8 s t v).vram i = 0x0F) ∧
    (∃ x y, (0 ≤ x ∧ x ≤ 319) ∧ (0 ≤ y ∧ y ≤ 199) ∧
      ({ s with mouseX := x, mouseY := y } : Mouse).OnTitleBar) ∧
    ((∃ px py, (0 ≤ px ∧ px ≤ 319) ∧ (0 ≤ py ∧ py ≤ 199) ∧ s.TitleBar px py) ↔
      s.winX ≠ -160 ∧ s.winY ≠ -10) := by
  have hs := h.run hrun
  have hx := hs.x_range
  have hy := hs.y_range
  have hwinX := hs.win_x
  have hwinY := hs.win_y
  have hwhite : ∀ i, i < 64000 →
      ((renderGui font8x8 s t v).vram i = 0x0F ↔ s.Pointer (pixelColumn i) (pixelRow i)) := by
    intro i hi
    rw [(renderGui_frame hs.active t v i).2, if_pos hi, InReach.shownColor_white]
  refine ⟨hwhite, ?_, ?_, ?_⟩
  · have hi : (s.mouseY * 320 + s.mouseX).toNat < 64000 := by omega
    refine ⟨_, hi, (hwhite _ hi).mpr ?_⟩
    show InRect _ _ _ _ (((s.mouseY * 320 + s.mouseX).toNat % 320 : Nat) : Int)
      (((s.mouseY * 320 + s.mouseX).toNat / 320 : Nat) : Int)
    rw [InRect]
    omega
  · refine ⟨max 0 s.winX, max 0 s.winY, by omega, by omega, ?_⟩
    rw [OnTitleBar, hs.width]
    dsimp only
    omega
  · rw [show s.TitleBar = InRect s.winX s.winY s.winW 10 from rfl, hs.width]
    constructor
    · rintro ⟨px, py, hpx, hpy, hleft, hright, htop, hbottom⟩
      omega
    · rintro ⟨hneX, hneY⟩
      refine ⟨max 0 s.winX, max 0 s.winY, by omega, by omega, ?_⟩
      rw [InRect]
      omega

end Mouse

theorem sampleDesktop_inReach : sampleDesktop.InReach :=
  ⟨rfl, by decide, by decide, rfl, rfl, nofun, by decide, by decide⟩

/-- The pointer goes to the right end of the title bar, takes hold of the window and moves to the
left edge of the screen. -/
def dragOff : List (UInt8 × UInt8) :=
  [(0x21, 0x08), (0x21, 80), (0x21, 55), (0x21, 0x09), (0x21, 0), (0x21, 0), (0x21, 0x19),
    (0x21, 16), (0x21, 0)]

/-- The window is off the screen, and in reach. -/
theorem run_desktop_sample : ∃ s, sampleDesktop.run dragOff = some s ∧ s.winX = -160 ∧
    (∃ x y, (0 ≤ x ∧ x ≤ 319) ∧ (0 ≤ y ∧ y ≤ 199) ∧
      ({ s with mouseX := x, mouseY := y } : Mouse).OnTitleBar) ∧
    ¬ ∃ px py, (0 ≤ px ∧ px ≤ 319) ∧ (0 ≤ py ∧ py ≤ 199) ∧ s.TitleBar px py := by
  have hwin : (sampleDesktop.run dragOff).map Mouse.winX = some (-160) := by decide +kernel
  obtain ⟨s, hs, hwinX⟩ := Option.map_eq_some_iff.mp hwin
  refine ⟨s, hs, hwinX, ?_⟩
  obtain ⟨-, -, hreach, hbar⟩ := Mouse.run_desktop sampleDesktop_inReach hs
    ⟨.ofLiteral "", 0, fun _ => 0, 0⟩ ⟨fun _ => 0, fun _ => 0⟩
  exact ⟨hreach, fun h => (hbar.mp h).1 hwinX⟩

end Newrex
