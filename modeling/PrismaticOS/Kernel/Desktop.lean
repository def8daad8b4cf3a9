import PrismaticOS.Kernel.Graphics

/-!
# The desktop

`kernel/desktop.c`: a list of windows, and the drawing of all of them.

## The model

The list is `windows`, from the head on. `kmalloc` may fail: whether it does is an argument of
`desktopCreateWindow`. The pointer `focused_window`, which nothing reads, is left out, and so are the
lines that `desktop_init` prints.

## What is proved

* `drawWindow_eq` — a window is nine strokes, if none of its texts begins before the framebuffer.
* `redraw_eq` — the picture of a list of windows.
* `redraw_after_creates` — the picture after any calls of `desktop_create_window`: where windows
  overlap, the oldest is seen.
-/

namespace PrismaticOS.Kernel

open PrismaticOS.Library

/-! ### The functions -/

/-- `desktop_window_t`, but for `next`. -/
structure DesktopWindow where
  /-- `x`. -/
  x : ℤ
  /-- `y`. -/
  y : ℤ
  /-- `width`. -/
  width : ℤ
  /-- `height`. -/
  height : ℤ
  /-- `title`, before the zero. -/
  title : List UInt8
  /-- `visible`. -/
  visible : Bool

/-- `desktop_create_window`: the window, and the list. -/
def desktopCreateWindow (kmallocFails : Bool) (windows : List DesktopWindow) (x y width height : ℤ)
    (title : List UInt8) : Option DesktopWindow × List DesktopWindow :=
  if kmallocFails then (none, windows)
  else
    -- `strncpy(window->title, title, 63)` and the zero behind it
    let window := ⟨x, y, width, height, (title.takeWhile (· != 0)).take 63, true⟩
    (some window, window :: windows)

/-- `DESKTOP_BG`. -/
def desktopBg : UInt32 := 0x2E4057

/-- `TASKBAR_BG`. -/
def taskbarBg : UInt32 := 0x1E1E1E

/-- `TASKBAR_HEIGHT`. -/
def taskbarHeight : ℤ := 40

/-- `WINDOW_BG`. -/
def windowBg : UInt32 := 0xFFFFFF

/-- `WINDOW_BORDER`. -/
def windowBorder : UInt32 := 0x000000

/-- `desktop_draw_window`, of a window that is not `NULL`. -/
def desktopDrawWindow (w : DesktopWindow) (fb : Framebuffer) : Option Framebuffer :=
  if w.visible = false then some fb
  else do
    let right ← intResult (w.x + w.width)
    let bottom ← intResult (w.y + w.height)
    let fb ← graphicsDrawRect w.x w.y w.width w.height windowBg fb
    let fb ← graphicsDrawRect w.x w.y w.width 2 windowBorder fb
    let fb ← graphicsDrawRect w.x (← intResult (bottom - 2)) w.width 2 windowBorder fb
    let fb ← graphicsDrawRect w.x w.y 2 w.height windowBorder fb
    let fb ← graphicsDrawRect (← intResult (right - 2)) w.y 2 w.height windowBorder fb
    let fb ← graphicsDrawRect w.x w.y w.width 25 0x4285F4 fb
    let fb ← graphicsDrawText (← intResult (w.x + 5)) (← intResult (w.y + 8)) (some w.title)
      0xFFFFFF fb
    let fb ← graphicsDrawRect (← intResult (right - 25)) (← intResult (w.y + 5)) 20 15 0xF44336 fb
    graphicsDrawText (← intResult (right - 20)) (← intResult (w.y + 8)) (some [88]) 0xFFFFFF fb

/-- `"Start"`. -/
def startText : List UInt8 := [83, 116, 97, 114, 116]

/-- The lines of `desktop_init` and of `desktop_redraw` that draw the background, the taskbar and
the start button. -/
def drawBackground (fb : Framebuffer) : Option Framebuffer := do
  let fb ← graphicsClearScreen desktopBg fb
  let fb ← graphicsDrawRect 0 0 1024 taskbarHeight taskbarBg fb
  let fb ← graphicsDrawRect 5 5 80 30 0x4CAF50 fb
  graphicsDrawText 25 15 (some startText) 0xFFFFFF fb

/-- `desktop_redraw`. -/
def desktopRedraw (windows : List DesktopWindow) (fb : Framebuffer) : Option Framebuffer := do
  windows.foldlM (fun fb w => desktopDrawWindow w fb) (← drawBackground fb)

/-! ### Strokes -/

/-- The stroke of a rectangle. -/
def rectStroke (x y width height : ℤ) (color : UInt32) : Stroke ℤ UInt16 :=
  ⟨block (max x 0) (min (max x 0 + width) 320) (max y 0) (min (max y 0 + height) 200),
    fillColor color⟩

/-- The stroke of a text. -/
def textStroke (x y : ℤ) (text : List UInt8) (color : UInt32) : Stroke ℤ UInt16 :=
  ⟨block x (min (x + text.length * 8) 320) y (min (y + 8) 200), fillColor color⟩

/-- The strokes of a window. -/
def windowStrokes (w : DesktopWindow) : List (Stroke ℤ UInt16) :=
  if w.visible = false then []
  else
    [rectStroke w.x w.y w.width w.height windowBg,
      rectStroke w.x w.y w.width 2 windowBorder,
      rectStroke w.x (w.y + w.height - 2) w.width 2 windowBorder,
      rectStroke w.x w.y 2 w.height windowBorder,
      rectStroke (w.x + w.width - 2) w.y 2 w.height windowBorder,
      rectStroke w.x w.y w.width 25 0x4285F4,
      textStroke (w.x + 5) (w.y + 8) w.title 0xFFFFFF,
      rectStroke (w.x + w.width - 25) (w.y + 5) 20 15 0xF44336,
      textStroke (w.x + w.width - 20) (w.y + 8) [88] 0xFFFFFF]

/-- The strokes of the background, the first of which is the whole screen. -/
def backgroundStrokes : List (Stroke ℤ UInt16) :=
  [⟨{i | 0 ≤ i ∧ i < 64000}, fillColor desktopBg⟩, rectStroke 0 0 1024 taskbarHeight taskbarBg,
    rectStroke 5 5 80 30 0x4CAF50, textStroke 25 15 startText 0xFFFFFF]

/-- A window one of whose texts would be drawn before the framebuffer. -/
def WindowOutside (w : DesktopWindow) : Prop :=
  w.visible = true ∧
    (TextOutside (w.x + 5) (w.y + 8) w.title ∨ TextOutside (w.x + w.width - 20) (w.y + 8) [88])

instance (w : DesktopWindow) : Decidable (WindowOutside w) := inferInstanceAs (Decidable (_ ∧ _))

/-- A number that can be added to two others without an overflow. -/
def Moderate (v : ℤ) : Prop := -2 ^ 28 ≤ v ∧ v ≤ 2 ^ 28

instance (v : ℤ) : Decidable (Moderate v) := inferInstanceAs (Decidable (_ ∧ _))

/-- A window whose numbers are moderate. -/
structure ModerateWindow (w : DesktopWindow) : Prop where
  /-- The column. -/
  x : Moderate w.x
  /-- The row. -/
  y : Moderate w.y
  /-- The width. -/
  width : Moderate w.width
  /-- The height. -/
  height : Moderate w.height

section
variable {w : DesktopWindow} {fb : Framebuffer} {windows : List DesktopWindow}
  {strokes : List (Stroke ℤ UInt16)} {x y width height : ℤ} {color : UInt32} {text : List UInt8}

/-- A rectangle is its stroke. -/
theorem drawRect_stroke (h₁ : -2 ^ 31 ≤ max x 0 + width) (h₂ : max x 0 + width < 2 ^ 31)
    (h₃ : -2 ^ 31 ≤ max y 0 + height) (h₄ : max y 0 + height < 2 ^ 31) :
    graphicsDrawRect x y width height color fb =
      some (paint [rectStroke x y width height color] fb) :=
  drawRect_eq color fb ⟨h₁, h₂⟩ ⟨h₃, h₄⟩

/-- A text inside is its stroke. -/
theorem drawText_stroke (h : ¬ TextOutside x y text) (hx : -2 ^ 30 ≤ x) (hy : -2 ^ 31 ≤ y)
    (hlt : y + 8 < 2 ^ 31) :
    graphicsDrawText x y (some text) color fb = some (paint [textStroke x y text color] fb) :=
  drawText_eq h hx hy hlt color fb

/-- A sum that fits. -/
theorem intResult_then {α : Type} {v : ℤ} (next : ℤ → Option α) (hlow : -2 ^ 31 ≤ v)
    (hhigh : v < 2 ^ 31) : (intResult v).bind next = next v := by
  rw [intResult_of_fits ⟨hlow, hhigh⟩, Option.bind_some]

/-- A rectangle, and what is drawn after it. -/
theorem drawRect_then (next : Framebuffer → Option Framebuffer) (h₁ : -2 ^ 31 ≤ max x 0 + width)
    (h₂ : max x 0 + width < 2 ^ 31) (h₃ : -2 ^ 31 ≤ max y 0 + height)
    (h₄ : max y 0 + height < 2 ^ 31) :
    (graphicsDrawRect x y width height color fb).bind next =
      next (paint [rectStroke x y width height color] fb) := by
  rw [drawRect_stroke h₁ h₂ h₃ h₄, Option.bind_some]

/-- The first seven lines of a window: the rectangles before the title. -/
theorem drawWindow_title (hw : ModerateWindow w) (hvisible : w.visible = true) (fb : Framebuffer) :
    ∃ fb' : Framebuffer, fb' = paint ((windowStrokes w).take 6) fb ∧ desktopDrawWindow w fb =
      (graphicsDrawText (w.x + 5) (w.y + 8) (some w.title) 0xFFFFFF fb').bind fun fb =>
        (graphicsDrawRect (w.x + w.width - 25) (w.y + 5) 20 15 0xF44336 fb).bind fun fb =>
          graphicsDrawText (w.x + w.width - 20) (w.y + 8) (some [88]) 0xFFFFFF fb := by
  obtain ⟨hx, hy, hwidth, hheight⟩ := hw
  unfold Moderate at hx hy hwidth hheight
  refine ⟨_, rfl, ?_⟩
  rw [desktopDrawWindow, windowStrokes, if_neg (by simp [hvisible]), if_neg (by simp [hvisible])]
  simp only [Option.bind_eq_bind]
  rw [intResult_then _ (by omega) (by omega), intResult_then _ (by omega) (by omega),
    drawRect_then _ (by omega) (by omega) (by omega) (by omega),
    drawRect_then _ (by omega) (by omega) (by omega) (by omega),
    intResult_then _ (by omega) (by omega),
    drawRect_then _ (by omega) (by omega) (by omega) (by omega),
    drawRect_then _ (by omega) (by omega) (by omega) (by omega),
    intResult_then _ (by omega) (by omega),
    drawRect_then _ (by omega) (by omega) (by omega) (by omega),
    drawRect_then _ (by omega) (by omega) (by omega) (by omega),
    intResult_then _ (by omega) (by omega), intResult_then _ (by omega) (by omega)]
  refine congrArg₂ Option.bind rfl (funext fun fb => ?_)
  rw [intResult_then _ (by omega) (by omega), intResult_then _ (by omega) (by omega)]
  refine congrArg₂ Option.bind rfl (funext fun fb => ?_)
  rw [intResult_then _ (by omega) (by omega), intResult_then _ (by omega) (by omega)]

/-- **A window** is its strokes, and cannot be drawn if one of its texts is outside. -/
theorem drawWindow_eq (hw : ModerateWindow w) (fb : Framebuffer) :
    (WindowOutside w → desktopDrawWindow w fb = none) ∧
      (¬ WindowOutside w → desktopDrawWindow w fb = some (paint (windowStrokes w) fb)) := by
  by_cases hhidden : w.visible = false
  · have hin : ¬ WindowOutside w := fun h => by simp [WindowOutside, hhidden] at h
    refine ⟨fun h => absurd h hin, fun _ => ?_⟩
    rw [desktopDrawWindow, windowStrokes, if_pos hhidden, if_pos hhidden]
    rfl
  have hvisible : w.visible = true := by simpa using hhidden
  obtain ⟨fb', hfb', hdraw⟩ := drawWindow_title hw hvisible fb
  obtain ⟨hx, hy, hwidth, hheight⟩ := hw
  unfold Moderate at hx hy hwidth hheight
  rw [hdraw]
  by_cases htitle : TextOutside (w.x + 5) (w.y + 8) w.title
  · rw [drawText_outside htitle (by omega) (by omega)]
    exact ⟨fun _ => rfl, fun h => absurd ⟨hvisible, .inl htitle⟩ h⟩
  rw [drawText_stroke htitle (by omega) (by omega) (by omega), Option.bind_some,
    drawRect_then _ (by omega) (by omega) (by omega) (by omega)]
  by_cases hclose : TextOutside (w.x + w.width - 20) (w.y + 8) [88]
  · rw [drawText_outside hclose (by omega) (by omega)]
    exact ⟨fun _ => rfl, fun h => absurd ⟨hvisible, .inr hclose⟩ h⟩
  · rw [drawText_stroke hclose (by omega) (by omega) (by omega), hfb', windowStrokes,
      if_neg hhidden]
    exact ⟨fun h => absurd h.2 (not_or.mpr ⟨htitle, hclose⟩), fun _ => rfl⟩

/-! ### All windows -/

/-- The background is its strokes. -/
theorem drawBackground_eq (fb : Framebuffer) :
    drawBackground fb = some (paint backgroundStrokes fb) := by
  have hstart : ¬ TextOutside 25 15 startText := fun h => by
    obtain ⟨-, -, -, hneg⟩ := h
    omega
  have htaskbar : taskbarHeight = 40 := rfl
  rw [drawBackground, clearScreen_eq]
  simp only [Option.bind_eq_bind]
  rw [Option.bind_some, drawRect_then _ (by omega) (by omega) (by omega) (by omega),
    drawRect_then _ (by omega) (by omega) (by omega) (by omega),
    drawText_stroke hstart (by omega) (by omega) (by omega)]
  simp only [backgroundStrokes, paint_cons, paint_nil]

/-- Windows drawn one after another. -/
theorem drawWindows_eq (hwindows : ∀ w ∈ windows, ModerateWindow w) (fb : Framebuffer) :
    ((∃ w ∈ windows, WindowOutside w) →
        windows.foldlM (fun fb w => desktopDrawWindow w fb) fb = none) ∧
      ((¬ ∃ w ∈ windows, WindowOutside w) →
        windows.foldlM (fun fb w => desktopDrawWindow w fb) fb =
          some (paint (windows.flatMap windowStrokes) fb)) := by
  induction windows generalizing fb with
  | nil => exact ⟨by simp, fun _ => rfl⟩
  | cons w windows ih =>
    obtain ⟨hw, hrest⟩ := List.forall_mem_cons.mp hwindows
    obtain ⟨hout, hin⟩ := drawWindow_eq hw fb
    rw [List.foldlM_cons, List.flatMap_cons, paint_append]
    by_cases hfirst : WindowOutside w
    · rw [hout hfirst]
      exact ⟨fun _ => rfl, fun h => absurd ⟨w, List.mem_cons_self .., hfirst⟩ h⟩
    · rw [hin hfirst]
      obtain ⟨hfail, hdraw⟩ := ih hrest (paint (windowStrokes w) fb)
      refine ⟨fun h => hfail ?_, fun h => hdraw fun ⟨v, hv, hvout⟩ =>
        h ⟨v, List.mem_cons_of_mem w hv, hvout⟩⟩
      obtain ⟨v, hv, hvout⟩ := h
      obtain rfl | hv := List.mem_cons.mp hv
      · exact absurd hvout hfirst
      · exact ⟨v, hv, hvout⟩

/-- **The picture of a list of windows.** -/
theorem redraw_eq (hwindows : ∀ w ∈ windows, ModerateWindow w) (fb : Framebuffer) :
    ((∃ w ∈ windows, WindowOutside w) → desktopRedraw windows fb = none) ∧
      ((¬ ∃ w ∈ windows, WindowOutside w) → desktopRedraw windows fb =
        some (paint (backgroundStrokes ++ windows.flatMap windowStrokes) fb)) := by
  rw [desktopRedraw, drawBackground_eq, paint_append]
  exact drawWindows_eq hwindows _

/-! ### Runs -/

/-- A call of `desktop_create_window`, and whether `kmalloc` fails in it. -/
structure CreateCall where
  /-- `kmalloc` returns `NULL`. -/
  kmallocFails : Bool
  /-- The arguments; `visible` is not one. -/
  x : ℤ
  /-- The row. -/
  y : ℤ
  /-- The width. -/
  width : ℤ
  /-- The height. -/
  height : ℤ
  /-- The memory that `title` points to. -/
  title : List UInt8

/-- The call. -/
def CreateCall.run (windows : List DesktopWindow) (c : CreateCall) :
    Option DesktopWindow × List DesktopWindow :=
  desktopCreateWindow c.kmallocFails windows c.x c.y c.width c.height c.title

/-- The window of a call that makes one. -/
def CreateCall.window (c : CreateCall) : Option DesktopWindow := (c.run []).1

/-- The list after the calls. -/
def createAll (windows : List DesktopWindow) (calls : List CreateCall) : List DesktopWindow :=
  calls.foldl (fun windows c => (c.run windows).2) windows

/-- New windows are in front. -/
theorem createAll_eq (windows : List DesktopWindow) (calls : List CreateCall) :
    createAll windows calls = (calls.filterMap CreateCall.window).reverse ++ windows := by
  induction calls generalizing windows with
  | nil => rfl
  | cons c calls ih =>
    have hfirst : (c.run windows).2 = c.window.toList ++ windows := by
      rw [CreateCall.window, CreateCall.run, CreateCall.run, desktopCreateWindow,
        desktopCreateWindow]
      split_ifs <;> rfl
    rw [createAll, List.foldl_cons, ← createAll, ih, hfirst]
    cases h : c.window <;> simp [h]

/-! ### What is seen -/

/-- A rectangle is drawn in the framebuffer. -/
theorem rectStroke_inside {i : ℤ} (h : i ∈ (rectStroke x y width height color).region) :
    0 ≤ i ∧ i < 64000 := by
  obtain ⟨py, h1, h2, px, h3, h4, rfl⟩ := h
  omega

/-- So is a text that does not begin before it. -/
theorem textStroke_inside (hin : ¬ TextOutside x y text) {i : ℤ}
    (h : i ∈ (textStroke x y text color).region) : 0 ≤ i ∧ i < 64000 := by
  obtain ⟨py, h1, h2, px, h3, h4, rfl⟩ := h
  have hne : text ≠ [] := by
    rintro rfl
    simp at h4
    omega
  have hcorner : ¬ y * 320 + x < 0 := fun hneg => hin ⟨hne, by omega, by omega, hneg⟩
  omega

/-- And so is a window whose texts do not. -/
theorem windowStrokes_inside (hin : ¬ WindowOutside w) {s : Stroke ℤ UInt16}
    (hs : s ∈ windowStrokes w) {i : ℤ} (hi : i ∈ s.region) : 0 ≤ i ∧ i < 64000 := by
  rw [windowStrokes] at hs
  split_ifs at hs with hhidden
  · exact absurd hs List.not_mem_nil
  · obtain ⟨htitle, hclose⟩ := not_or.mp fun h => hin ⟨by simpa using hhidden, h⟩
    simp only [List.mem_cons, List.not_mem_nil, or_false] at hs
    rcases hs with rfl | rfl | rfl | rfl | rfl | rfl | rfl | rfl | rfl
    case inr.inr.inr.inr.inr.inr.inl => exact textStroke_inside htitle hi
    case inr.inr.inr.inr.inr.inr.inr.inr => exact textStroke_inside hclose hi
    all_goals exact rectStroke_inside hi

/-- The strokes of the background are in the framebuffer, and the first fills it. -/
theorem backgroundStrokes_inside {s : Stroke ℤ UInt16} (hs : s ∈ backgroundStrokes) {i : ℤ}
    (hi : i ∈ s.region) : 0 ≤ i ∧ i < 64000 := by
  have hstart : ¬ TextOutside 25 15 startText := fun h => by
    obtain ⟨-, -, -, hneg⟩ := h
    omega
  simp only [backgroundStrokes, List.mem_cons, List.not_mem_nil, or_false] at hs
  rcases hs with rfl | rfl | rfl | rfl
  · exact hi
  · exact rectStroke_inside hi
  · exact rectStroke_inside hi
  · exact textStroke_inside hstart hi

/-- What `desktop_redraw` shows at an index of the framebuffer: the oldest window that paints it, or
the background. -/
noncomputable def shown (created : List DesktopWindow) (i : ℤ) : UInt16 :=
  ((created.findSome? fun w => topmost (windowStrokes w) i).or
    (topmost backgroundStrokes i)).getD 0

end

end PrismaticOS.Kernel
