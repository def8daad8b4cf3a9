import Mathlib.Algebra.Ring.Int.Defs
import Mathlib.Order.Lattice
import PrismaticOS.Library.Painting

/-!
# The framebuffer

`kernel/simple_graphics.c`: a screen of 320 columns and 200 rows, one 16-bit word for each pixel,
and the three functions that draw on it.

## The model

The framebuffer is memory by the index of its words, which may be any number; a store to an index
that is not one of its 64000 words is one to other memory, and the call returns nothing then. So it
does where an `int` overflows, which C leaves undefined.

## What is proved

* `clearScreen_eq` — the loop over the screen.
* `drawRect_pixels` — which pixels a rectangle changes, and when it can be drawn.
* `drawText_pixels` — the same for a text, and when it is drawn outside.
-/

namespace PrismaticOS.Kernel

open PrismaticOS.Library

/-- The words at `0xA0000`, by their index. -/
abbrev Framebuffer := ℤ → UInt16

/-- `screen_width`. -/
abbrev screenWidth : ℤ := 320

/-- `screen_height`. -/
abbrev screenHeight : ℤ := 200

/-- The result of an operation on `int`s, unless it overflows. -/
def intResult (v : ℤ) : Option ℤ := if -2 ^ 31 ≤ v ∧ v < 2 ^ 31 then some v else none

/-- `framebuffer[i] = color`. -/
def storePixel (fb : Framebuffer) (i : ℤ) (color : UInt16) : Option Framebuffer :=
  if 0 ≤ i ∧ i < screenWidth * screenHeight then some (Function.update fb i color) else none

/-- `(uint16_t)(color & 0xFF)`. -/
def fillColor (color : UInt32) : UInt16 := (color &&& 0xFF).toUInt16

/-- `graphics_clear_screen`. -/
def graphicsClearScreen (color : UInt32) (fb : Framebuffer) : Option Framebuffer :=
  forInt 0 (screenWidth * screenHeight) (fun i fb => storePixel fb i (fillColor color)) fb

/-- `graphics_draw_rect`. -/
def graphicsDrawRect (x y width height : ℤ) (color : UInt32) (fb : Framebuffer) :
    Option Framebuffer := do
  let x := if x < 0 then 0 else x
  let y := if y < 0 then 0 else y
  let width := if (← intResult (x + width)) > screenWidth then screenWidth - x else width
  let height := if (← intResult (y + height)) > screenHeight then screenHeight - y else height
  forInt y (y + height) (fun py => forInt x (x + width) fun px fb =>
    if px < screenWidth ∧ py < screenHeight then
      storePixel fb (py * screenWidth + px) (fillColor color)
    else some fb) fb

/-- The loops over the rows and columns of character `i`. -/
def drawChar (x y i : ℤ) (color : UInt16) (fb : Framebuffer) : Option Framebuffer := do
  let bottom ← intResult (y + 8)
  forInt y (min bottom screenHeight) (fun py =>
    forInt (x + i * 8) (min (x + (i + 1) * 8) screenWidth) fun px fb =>
      storePixel fb (py * screenWidth + px) color) fb

/-- The loop over the characters, from the `i`-th on. -/
def drawChars (x y : ℤ) (color : UInt16) : ℤ → List UInt8 → Framebuffer → Option Framebuffer
  | _, [], fb => some fb
  | i, _ :: text, fb => do
    let offset ← intResult (i * 8)
    if x + offset < screenWidth then
      drawChars x y color (i + 1) text (← drawChar x y i color fb)
    else some fb

/-- `graphics_draw_text`, where `text` is what is before the zero. -/
def graphicsDrawText (x y : ℤ) (text : Option (List UInt8)) (color : UInt32) (fb : Framebuffer) :
    Option Framebuffer :=
  match text with
  | none => some fb
  | some text => drawChars x y (fillColor color) 0 text fb

/-! ### Blocks of pixels -/

/-- The indices of the pixels in some columns and rows. -/
def block (x₀ x₁ y₀ y₁ : ℤ) : Set ℤ :=
  {i | ∃ py, y₀ ≤ py ∧ py < y₁ ∧ ∃ px, x₀ ≤ px ∧ px < x₁ ∧ i = py * 320 + px}

variable {x x₀ x₁ y y₀ y₁ px py i : ℤ} {fb : Framebuffer} {color : UInt16} {text : List UInt8}

/-- The pixels of a block on the screen. -/
theorem mem_block_iff (hx₀ : 0 ≤ x₀) (hx₁ : x₁ ≤ 320) (hpx : 0 ≤ px) (hlt : px < 320) :
    py * 320 + px ∈ block x₀ x₁ y₀ y₁ ↔ y₀ ≤ py ∧ py < y₁ ∧ x₀ ≤ px ∧ px < x₁ := by
  constructor
  · rintro ⟨py', h1, h2, px', h3, h4, heq⟩
    omega
  · rintro ⟨h1, h2, h3, h4⟩
    exact ⟨py, h1, h2, px, h3, h4, rfl⟩

/-- A block without columns, or without rows. -/
theorem block_eq_empty (h : x₁ ≤ x₀ ∨ y₁ ≤ y₀) : block x₀ x₁ y₀ y₁ = ∅ := by
  refine Set.eq_empty_of_forall_notMem ?_
  rintro i ⟨py, h1, h2, px, h3, h4, -⟩
  omega

theorem storePixel_eq (h : 0 ≤ i ∧ i < 64000) :
    storePixel fb i color = some (fill {j | j = i} color fb) := by
  rw [storePixel, if_pos ⟨h.1, h.2⟩]
  congr 1
  funext j
  by_cases hj : j = i
  · have hmem : j ∈ {j | j = i} := hj
    rw [fill_of_mem hmem, hj, Function.update_self]
  · have hnot : j ∉ {j | j = i} := hj
    rw [fill_of_notMem hnot, Function.update_of_ne hj]

/-- **Loops over a block** in the framebuffer. -/
theorem forInt_block {body : ℤ → ℤ → Framebuffer → Option Framebuffer}
    (hbody : ∀ py, y₀ ≤ py → py < y₁ → ∀ px, x₀ ≤ px → px < x₁ → ∀ fb,
      body py px fb = storePixel fb (py * 320 + px) color)
    (hin : y₀ < y₁ → x₀ < x₁ → 0 ≤ y₀ * 320 + x₀) (hx : x₁ ≤ 320) (hy : y₁ ≤ 200) :
    forInt y₀ y₁ (fun py => forInt x₀ x₁ (body py)) fb =
      some (fill (block x₀ x₁ y₀ y₁) color fb) := by
  refine forInt_fill (fun py => {i | ∃ px, x₀ ≤ px ∧ px < x₁ ∧ i = py * 320 + px}) ?_ fb
  intro py h1 h2 fb
  refine forInt_fill (fun px => {i | i = py * 320 + px}) ?_ fb
  intro px h3 h4 fb
  have hfirst := hin (by omega) (by omega)
  exact (hbody py h1 h2 px h3 h4 fb).trans (storePixel_eq (by omega))

/-- A loop over a block that begins before the framebuffer. -/
theorem forInt_block_none (color : UInt16) (fb : Framebuffer) (hy : y₀ < y₁) (hx : x₀ < x₁)
    (hout : y₀ * 320 + x₀ < 0) : forInt y₀ y₁ (fun py => forInt x₀ x₁ fun px fb =>
      storePixel fb (py * screenWidth + px) color) fb = none := by
  refine forInt_none le_rfl hy (fun fb => ?_) fb
  refine forInt_none le_rfl hx (fun fb => ?_) fb
  exact if_neg fun h => absurd h.1 (not_le.mpr hout)

theorem intResult_of_fits (h : -2 ^ 31 ≤ x ∧ x < 2 ^ 31) : intResult x = some x := if_pos h

theorem intResult_of_overflow (h : ¬ (-2 ^ 31 ≤ x ∧ x < 2 ^ 31)) : intResult x = none := if_neg h

/-! ### The screen and rectangles -/

/-- The index of a pixel of the screen. -/
def OnScreen (px py : ℤ) : Prop := 0 ≤ px ∧ px < 320 ∧ 0 ≤ py ∧ py < 200

/-- `graphics_clear_screen` fills the framebuffer. -/
theorem clearScreen_eq (color : UInt32) (fb : Framebuffer) :
    graphicsClearScreen color fb = some (fill {i | 0 ≤ i ∧ i < 64000} (fillColor color) fb) := by
  have hloop : forInt 0 64000 (fun i fb => storePixel fb i (fillColor color)) fb = _ :=
    forInt_fill (fun k => {i | i = k}) (fun k h1 h2 fb => storePixel_eq ⟨h1, h2⟩) fb
  have hall : {i : ℤ | ∃ k, 0 ≤ k ∧ k < 64000 ∧ i ∈ {i | i = k}} = {i | 0 ≤ i ∧ i < 64000} := by
    ext i
    exact ⟨fun ⟨k, h1, h2, heq⟩ => heq ▸ ⟨h1, h2⟩, fun h => ⟨i, h.1, h.2, rfl⟩⟩
  rw [hall] at hloop
  exact hloop

/-- **`graphics_draw_rect`**: one block, moved onto the screen at the left and at the top, and cut
off at the right and at the bottom. -/
theorem drawRect_eq {width height : ℤ} (color : UInt32) (fb : Framebuffer)
    (hwidth : -2 ^ 31 ≤ max x 0 + width ∧ max x 0 + width < 2 ^ 31)
    (hheight : -2 ^ 31 ≤ max y 0 + height ∧ max y 0 + height < 2 ^ 31) :
    graphicsDrawRect x y width height color fb =
      some (fill (block (max x 0) (min (max x 0 + width) 320) (max y 0) (min (max y 0 + height) 200))
        (fillColor color) fb) := by
  have hmax : ∀ v : ℤ, (if v < 0 then 0 else v) = max v 0 := fun v => by split <;> omega
  have hend : ∀ v w s : ℤ, v + (if v + w > s then s - v else w) = min (v + w) s :=
    fun v w s => by split <;> omega
  simp only [graphicsDrawRect, hmax, intResult_of_fits hwidth, intResult_of_fits hheight,
    Option.bind_eq_bind, Option.bind_some, hend]
  refine forInt_block (fun py h1 h2 px h3 h4 fb => ?_) (by omega) (min_le_right _ _)
    (min_le_right _ _)
  exact if_pos ⟨h4.trans_le (min_le_right _ _), h2.trans_le (min_le_right _ _)⟩

/-- The rectangles that can be drawn: no sum of the coordinates overflows. -/
def RectFits (x y width height : ℤ) : Prop :=
  max x 0 + width < 2 ^ 31 ∧ max y 0 + height < 2 ^ 31

/-- **What a rectangle does**: it can be drawn unless a coordinate overflows; it changes the pixels
of the screen from the clamped corner on, in its full width and height, and nothing else in
memory. -/
theorem drawRect_pixels {width height : ℤ} (color : UInt32) (fb : Framebuffer)
    (hwidth : -2 ^ 31 ≤ width) (hheight : -2 ^ 31 ≤ height) :
    (graphicsDrawRect x y width height color fb = none ↔ ¬ RectFits x y width height) ∧
      ∀ fb', graphicsDrawRect x y width height color fb = some fb' →
        (∀ px py, OnScreen px py → fb' (py * 320 + px) =
          if max x 0 ≤ px ∧ px < max x 0 + width ∧ max y 0 ≤ py ∧ py < max y 0 + height then
            fillColor color
          else fb (py * 320 + px)) ∧
        ∀ i, i < 0 ∨ 64000 ≤ i → fb' i = fb i := by
  by_cases hfits : RectFits x y width height
  · have hdraw := drawRect_eq color fb (x := x) (y := y) ⟨by omega, hfits.1⟩ ⟨by omega, hfits.2⟩
    rw [hdraw]
    refine ⟨by simp [hfits], ?_⟩
    rintro fb' hfb
    obtain rfl := Option.some.inj hfb
    refine ⟨fun px py hp => ?_, fun i hi => fill_of_notMem ?_⟩
    · obtain ⟨h1, h2, h3, h4⟩ := hp
      have hmem : py * 320 + px ∈ block (max x 0) (min (max x 0 + width) 320) (max y 0)
          (min (max y 0 + height) 200) ↔ _ := mem_block_iff (by omega) (by omega) h1 h2
      split_ifs with hin
      · exact fill_of_mem (hmem.mpr (by omega))
      · exact fill_of_notMem fun hno => hin (by have := hmem.mp hno; omega)
    · rintro ⟨py, h1, h2, px, h3, h4, rfl⟩
      omega
  · have hnone : graphicsDrawRect x y width height color fb = none := by
      have hmax : ∀ v : ℤ, (if v < 0 then 0 else v) = max v 0 := fun v => by split <;> omega
      simp only [graphicsDrawRect, hmax]
      by_cases hx : max x 0 + width < 2 ^ 31
      · have hy : ¬ (-2 ^ 31 ≤ max y 0 + height ∧ max y 0 + height < 2 ^ 31) :=
          fun h => hfits ⟨hx, h.2⟩
        rw [intResult_of_fits ⟨by omega, hx⟩, intResult_of_overflow hy]
        rfl
      · rw [intResult_of_overflow fun h => hx h.2]
        rfl
    rw [hnone]
    exact ⟨by simp [hfits], by simp⟩

/-- A rectangle over the left edge and the bottom of the screen. -/
theorem drawRect_clipped : graphicsDrawRect (-10) 190 30 20 0xFF (fun _ => 0) ≠ none :=
  fun h => (drawRect_pixels 0xFF (fun _ => 0) (by omega) (by omega)).1.mp h
    ⟨by decide, by decide⟩

/-! ### Texts -/

/-- One character is a block of eight columns and eight rows, as far as they are on the screen. -/
theorem drawChar_eq (hy : -2 ^ 31 ≤ y ∧ y + 8 < 2 ^ 31)
    (hin : y < 200 → x + i * 8 < 320 → 0 ≤ y * 320 + (x + i * 8)) :
    drawChar x y i color fb =
      some (fill (block (x + i * 8) (min (x + (i + 1) * 8) 320) y (min (y + 8) 200)) color fb) := by
  have hfirst : y < min (y + 8) screenHeight → x + i * 8 < min (x + (i + 1) * 8) screenWidth →
      0 ≤ y * 320 + (x + i * 8) := fun h1 h2 =>
    hin (h1.trans_le (min_le_right _ _)) (h2.trans_le (min_le_right _ _))
  rw [drawChar, intResult_of_fits (by omega)]
  exact forInt_block (fun py _ _ px _ _ fb => rfl) hfirst (min_le_right _ _) (min_le_right _ _)

/-- Blocks side by side. -/
theorem block_union {x₂ : ℤ} (h₀ : x₀ ≤ x₁) (h₁ : x₁ ≤ x₂) :
    block x₀ x₁ y₀ y₁ ∪ block x₁ x₂ y₀ y₁ = block x₀ x₂ y₀ y₁ := by
  ext i
  constructor
  · rintro (⟨py, h1, h2, px, h3, h4, heq⟩ | ⟨py, h1, h2, px, h3, h4, heq⟩)
    · exact ⟨py, h1, h2, px, h3, by omega, heq⟩
    · exact ⟨py, h1, h2, px, by omega, h4, heq⟩
  · rintro ⟨py, h1, h2, px, h3, h4, heq⟩
    by_cases hlt : px < x₁
    · exact .inl ⟨py, h1, h2, px, h3, hlt, heq⟩
    · exact .inr ⟨py, h1, h2, px, by omega, h4, heq⟩

/-- The characters from the `i`-th on are one block, if the first of them begins in the
framebuffer. -/
theorem drawChars_eq (hy : -2 ^ 31 ≤ y ∧ y + 8 < 2 ^ 31) (hx : -2 ^ 30 ≤ x) (hi : 0 ≤ i)
    (hlt : i * 8 < 2 ^ 31)
    (hin : y < 200 → x + i * 8 < 320 → 0 ≤ y * 320 + (x + i * 8)) (fb : Framebuffer) :
    drawChars x y color i text fb = some (fill
      (block (x + i * 8) (min (x + (i + text.length) * 8) 320) y (min (y + 8) 200)) color fb) := by
  induction text generalizing i fb with
  | nil =>
    rw [drawChars, block_eq_empty (.inl (by simp)), fill_empty]
  | cons c text ih =>
    rw [drawChars, intResult_of_fits (by omega)]
    simp only [Option.bind_eq_bind, Option.bind_some]
    by_cases hleft : x + i * 8 < 320
    · rw [if_pos hleft, drawChar_eq hy hin, Option.bind_some,
        ih (by omega) (by omega) (by omega), fill_fill]
      congr 2
      rw [List.length_cons]
      by_cases hnext : x + (i + 1) * 8 ≤ 320
      · rw [min_eq_left hnext, block_union (by omega) (by omega)]
        congr 1
        omega
      · have hcut : block (x + (i + 1) * 8) (min (x + (i + 1 + text.length) * 8) 320) y
            (min (y + 8) 200) = ∅ := block_eq_empty (.inl (by omega))
        rw [hcut, Set.union_empty]
        congr 1
        omega
    · rw [if_neg hleft, block_eq_empty (.inl (by omega)), fill_empty]

/-- A text that would be drawn before the framebuffer. -/
def TextOutside (x y : ℤ) (text : List UInt8) : Prop :=
  text ≠ [] ∧ x < 320 ∧ y < 200 ∧ y * 320 + x < 0

instance : Decidable (TextOutside x y text) := inferInstanceAs (Decidable (_ ∧ _))

/-- It is. -/
theorem drawText_outside (h : TextOutside x y text) (hy : -2 ^ 31 ≤ y) (hlt : y + 8 < 2 ^ 31)
    (color : UInt32) (fb : Framebuffer) :
    graphicsDrawText x y (some text) color fb = none := by
  obtain ⟨hne, hcol, hrow, hneg⟩ := h
  obtain ⟨c, text, rfl⟩ := List.exists_cons_of_ne_nil hne
  have hrows : y < min (y + 8) screenHeight := lt_min (by omega) hrow
  have hcols : x + 0 * 8 < min (x + (0 + 1) * 8) screenWidth :=
    lt_min (by omega) (by simpa using hcol)
  have hchar : drawChar x y 0 (fillColor color) fb = none := by
    rw [drawChar, intResult_of_fits (by omega)]
    exact forInt_block_none _ fb hrows hcols (by omega)
  have hleft : x + 0 * 8 < screenWidth := by simpa using hcol
  rw [graphicsDrawText, drawChars, intResult_of_fits (by omega)]
  simp only [Option.bind_eq_bind, Option.bind_some]
  rw [if_pos hleft, hchar]
  rfl

/-- Any other text is one block. -/
theorem drawText_eq (h : ¬ TextOutside x y text) (hx : -2 ^ 30 ≤ x) (hy : -2 ^ 31 ≤ y)
    (hlt : y + 8 < 2 ^ 31) (color : UInt32) (fb : Framebuffer) :
    graphicsDrawText x y (some text) color fb = some (fill
      (block x (min (x + text.length * 8) 320) y (min (y + 8) 200)) (fillColor color) fb) := by
  rw [graphicsDrawText]
  cases text with
  | nil =>
    rw [drawChars, block_eq_empty (.inl (by simp)), fill_empty]
  | cons c text =>
    have hin : y < 200 → x + 0 * 8 < 320 → 0 ≤ y * 320 + (x + 0 * 8) := by
      intro h1 h2
      by_contra hneg
      exact h ⟨List.cons_ne_nil c text, by omega, h1, by omega⟩
    rw [drawChars_eq ⟨hy, hlt⟩ hx le_rfl (by omega) hin]
    simp only [Int.zero_mul, Int.add_zero, Int.zero_add]

/-- **What a text does**: it is drawn outside the framebuffer exactly if something is drawn and its
corner is before the first word; otherwise it changes a block of eight columns for each character,
whose rows may begin in the row above. -/
theorem drawText_pixels (color : UInt32) (fb : Framebuffer) (text : List UInt8)
    (hx : -2 ^ 30 ≤ x) (hy : -2 ^ 31 ≤ y ∧ y + 8 < 2 ^ 31) :
    (graphicsDrawText x y (some text) color fb = none ↔ TextOutside x y text) ∧
      ∀ fb', graphicsDrawText x y (some text) color fb = some fb' →
        fb' = fill (block x (min (x + text.length * 8) 320) y (min (y + 8) 200))
          (fillColor color) fb := by
  by_cases hout : TextOutside x y text
  · rw [drawText_outside hout hy.1 hy.2]
    exact ⟨iff_of_true rfl hout, by simp⟩
  · rw [drawText_eq hout hx hy.1 hy.2]
    exact ⟨iff_of_false (by simp) hout, fun fb' h => (Option.some.inj h).symm⟩

/-- A text whose first columns are left of the screen. -/
theorem drawText_wraps : graphicsDrawText (-4) 10 (some [65, 66]) 0xFFFFFF (fun _ => 0) ≠ none :=
  fun h => absurd ((drawText_pixels 0xFFFFFF (fun _ => 0) [65, 66] (by omega) (by omega)).1.mp h)
    (by decide)

end PrismaticOS.Kernel
