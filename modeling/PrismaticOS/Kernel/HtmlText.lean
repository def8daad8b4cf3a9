import Mathlib.Algebra.Ring.Nat
import PrismaticOS.Kernel.Desktop
import PrismaticOS.Libc.Ctype

/-!
# The page renderer of the kernel

`html_render_page` of `kernel/kernel_html.c` (and of `kernel/simple_html.c`, where it is the same):
it draws the characters of a page that are outside of tags, in lines.

## The model

The page is what is before the zero. `html_content[i - 1]` at the first character is a read before
the page, and the call returns nothing then; so it does where an `int` overflows.

## What is proved

* `renderLoop_spec` — what the loop draws of the rest of a page.
* `renderPage_shows` — which characters are drawn, and where.
-/

namespace PrismaticOS.Kernel

open PrismaticOS.Library PrismaticOS.Libc

/-- The variables of `html_render_page`. -/
structure Page where
  /-- `in_tag`. -/
  inTag : Bool
  /-- `x`. -/
  x : ℤ
  /-- `y`. -/
  y : ℤ

/-- `graphics_draw_text` of one character, and the steps to the next place. -/
def renderChar (s : Page) (c : UInt8) (fb : Framebuffer) : Option (Page × Framebuffer) := do
  let fb ← graphicsDrawText s.x s.y (some [c]) 0x000000 fb
  let x ← intResult (s.x + 8)
  if x > 300 then some ({ s with x := 10, y := ← intResult (s.y + 12) }, fb)
  else some ({ s with x }, fb)

/-- The end of a tag, where `prev` is `html_content[i - 1]`. -/
def renderTagEnd (prev : Option UInt8) (s : Page) : Option Page :=
  prev.bind fun p =>
    if p = chr 'p' ∨ p = chr 'P' then
      (intResult (s.y + 20)).map fun y => { inTag := false, x := 10, y }
    else some { s with inTag := false }

/-- The loop over the page. -/
def renderLoop : Option UInt8 → Page → List UInt8 → Framebuffer → Option Framebuffer
  | _, _, [], fb => some fb
  | prev, s, c :: rest, fb =>
    if c = chr '<' then renderLoop (some c) { s with inTag := true } rest fb
    else if c = chr '>' then
      (renderTagEnd prev s).bind fun s => renderLoop (some c) s rest fb
    else if s.inTag = false ∧ c ≠ chr '\n' ∧ c ≠ chr '\r' then
      (renderChar s c fb).bind fun (s, fb) => renderLoop (some c) s rest fb
    else renderLoop (some c) s rest fb

/-- `html_render_page`. -/
def htmlRenderPage (content : Option (List UInt8)) (fb : Framebuffer) : Option Framebuffer :=
  match content with
  | none => some fb
  | some content => renderLoop none ⟨false, 10, 40⟩ content fb

/-! ### What should be drawn -/

/-- The last `<` or `>`. -/
def lastBracket (text : List UInt8) : Option UInt8 :=
  (text.filter fun c => c = chr '<' ∨ c = chr '>').getLast?

/-- A character is shown if it is none of `<`, `>` and the ends of lines, and is not in a tag: the last
bracket before it is not `<`. -/
def Shown (before : List UInt8) (c : UInt8) : Prop :=
  c ∉ [chr '<', chr '>', chr '\n', chr '\r'] ∧ lastBracket before ≠ some (chr '<')

instance (before : List UInt8) (c : UInt8) : Decidable (Shown before c) :=
  inferInstanceAs (Decidable (_ ∧ _))

/-- The characters of a text that are shown. -/
def shownText (before : List UInt8) : List UInt8 → List UInt8
  | [] => []
  | c :: rest =>
    if Shown before c then c :: shownText (before ++ [c]) rest
    else shownText (before ++ [c]) rest

/-- A character and its place. -/
structure Glyph where
  /-- The column. -/
  x : ℤ
  /-- The row. -/
  y : ℤ
  /-- The character. -/
  char : UInt8

/-- What is drawn of a character. -/
def Glyph.stroke (g : Glyph) : Stroke ℤ UInt16 := textStroke g.x g.y [g.char] 0x000000

/-- The place is in the page, and at the place `x`, `y` or later: to the right in the same line, or
in a line below. -/
def Glyph.From (x y : ℤ) (g : Glyph) : Prop :=
  10 ≤ g.x ∧ g.x ≤ 300 ∧ 40 ≤ g.y ∧ (g.y = y ∧ x ≤ g.x ∨ y + 12 ≤ g.y)

section
variable {before rest content : List UInt8} {c : UInt8} {s : Page} {fb : Framebuffer} {x y : ℤ}
  {g g' : Glyph}

theorem lastBracket_bracket (h : c = chr '<' ∨ c = chr '>') :
    lastBracket (before ++ [c]) = some c := by
  simp [lastBracket, h]

theorem lastBracket_other (h : ¬ (c = chr '<' ∨ c = chr '>')) :
    lastBracket (before ++ [c]) = lastBracket before := by
  simp [lastBracket, h]

/-- Characters at different places do not overlap. -/
theorem Glyph.apart (hg : 10 ≤ g.x ∧ g.x ≤ 300) (h : g'.From (g.x + 8) g.y) :
    ∀ i ∈ g.stroke.region, i ∉ g'.stroke.region := by
  obtain ⟨h1, h2, h3, h4⟩ := h
  rintro i ⟨py, hy1, hy2, px, hx1, hx2, rfl⟩ ⟨py', hy1', hy2', px', hx1', hx2', heq⟩
  simp only [List.length_singleton] at hx2 hx2'
  omega

/-- One character is drawn where it should be. -/
theorem renderChar_eq (c : UInt8) (fb : Framebuffer) (hx : 10 ≤ s.x ∧ s.x ≤ 300) (hy : 40 ≤ s.y)
    (hlt : s.y + 20 < 2 ^ 31) :
    ∃ x y, renderChar s c fb =
        some (⟨s.inTag, x, y⟩, paint [(⟨s.x, s.y, c⟩ : Glyph).stroke] fb) ∧
      10 ≤ x ∧ x ≤ 300 ∧ (y = s.y ∧ x = s.x + 8 ∨ y = s.y + 12) := by
  have hin : ¬ TextOutside s.x s.y [c] := fun ⟨_, _, _, hneg⟩ => by omega
  rw [renderChar, drawText_stroke hin (by omega) (by omega) (by omega),
    intResult_of_fits (by omega)]
  simp only [Option.bind_eq_bind, Option.bind_some]
  by_cases hwrap : s.x + 8 > 300
  · rw [if_pos hwrap, intResult_of_fits (by omega)]
    exact ⟨10, s.y + 12, rfl, by omega, by omega, .inr rfl⟩
  · rw [if_neg hwrap]
    exact ⟨s.x + 8, s.y, rfl, by omega, by omega, .inl ⟨rfl, rfl⟩⟩

theorem Glyph.From.weaken (h : g.From x y) {x' y' : ℤ} (hle : y = y' ∧ x' ≤ x ∨ y' + 12 ≤ y) :
    g.From x' y' := by
  obtain ⟨h1, h2, h3, h4⟩ := h
  exact ⟨h1, h2, h3, by omega⟩

/-- What the loop draws: the characters that are shown, at places one after another. -/
structure Drawn (s : Page) (before rest : List UInt8) (fb fb' : Framebuffer) (glyphs : List Glyph) :
    Prop where
  /-- The characters. -/
  text : glyphs.map Glyph.char = shownText before rest
  /-- All at the place the loop begins with, or later. -/
  places : ∀ g ∈ glyphs, g.From s.x s.y
  /-- Each after the ones before it. -/
  order : glyphs.Pairwise fun g g' => g'.From (g.x + 8) g.y
  /-- The strokes. -/
  strokes : fb' = paint (glyphs.map Glyph.stroke) fb

/-- The end of a tag moves to a later place. -/
theorem renderTagEnd_eq (prev : UInt8) (hx : 10 ≤ s.x ∧ s.x ≤ 300) (hy : 40 ≤ s.y)
    (hlt : s.y + 20 < 2 ^ 31) :
    ∃ x y, renderTagEnd (some prev) s = some ⟨false, x, y⟩ ∧ 10 ≤ x ∧ x ≤ 300 ∧
      (y = s.y ∧ x = s.x ∨ y = s.y + 20) := by
  rw [renderTagEnd, Option.bind_some]
  split_ifs
  · rw [intResult_of_fits (by omega)]
    exact ⟨10, s.y + 20, rfl, by omega, by omega, .inr rfl⟩
  · exact ⟨s.x, s.y, rfl, hx.1, hx.2, .inl ⟨rfl, rfl⟩⟩

/-- **The loop over the rest of a page**: from a place on the screen it draws what is shown of the
rest. A `>` may not be the first character of the page. -/
theorem renderLoop_spec (hfirst : before = [] → rest.head? ≠ some (chr '>'))
    (htag : s.inTag = true ↔ lastBracket before = some (chr '<'))
    (hx : 10 ≤ s.x ∧ s.x ≤ 300) (hy : 40 ≤ s.y) (hlt : s.y + 20 * rest.length + 8 < 2 ^ 31)
    (fb : Framebuffer) :
    ∃ fb' glyphs, renderLoop before.getLast? s rest fb = some fb' ∧
      Drawn s before rest fb fb' glyphs := by
  induction rest generalizing before s fb with
  | nil => exact ⟨fb, [], rfl, rfl, by simp, .nil, rfl⟩
  | cons c rest ih =>
    rw [List.length_cons] at hlt
    have hprev : (before ++ [c]).getLast? = some c := List.getLast?_concat ..
    have hnext : before ++ [c] = [] → rest.head? ≠ some (chr '>') :=
      fun h => absurd h (List.append_ne_nil_of_right_ne_nil _ (List.cons_ne_nil c []))
    rw [renderLoop]
    -- a character that is not shown leaves the framebuffer and does not move back
    have hskip : ∀ t : Page, ¬ Shown before c → (s.y = t.y ∧ s.x ≤ t.x ∨ s.y + 12 ≤ t.y) →
        ∀ fb' glyphs, renderLoop (some c) t rest fb = some fb' →
          Drawn t (before ++ [c]) rest fb fb' glyphs →
          ∃ fb' glyphs, renderLoop (some c) t rest fb = some fb' ∧
            Drawn s before (c :: rest) fb fb' glyphs := by
      intro t hno hle fb' glyphs hrun ⟨htext, hplaces, horder, hstrokes⟩
      refine ⟨fb', glyphs, hrun, ?_, fun g hg => (hplaces g hg).weaken (by omega), horder, hstrokes⟩
      rw [shownText, if_neg hno, htext]
    by_cases hopen : c = chr '<'
    · have hno : ¬ Shown before c := fun h => h.1 (by simp [hopen])
      rw [if_pos hopen]
      obtain ⟨fb', glyphs, hrun, hdrawn⟩ := ih (s := { s with inTag := true }) hnext
        ⟨fun _ => by rw [lastBracket_bracket (.inl hopen), hopen], fun _ => rfl⟩ hx hy
        (by simp only; omega) fb
      rw [hprev] at hrun
      exact hskip _ hno (.inl ⟨rfl, le_rfl⟩) fb' glyphs hrun hdrawn
    rw [if_neg hopen]
    by_cases hclose : c = chr '>'
    · have hno : ¬ Shown before c := fun h => h.1 (by simp [hclose])
      have hne : before ≠ [] := fun h => hfirst h (by simp [hclose])
      have hne' : chr '>' ≠ chr '<' := by decide
      obtain ⟨prev, hlast⟩ := Option.ne_none_iff_exists'.mp (mt List.getLast?_eq_none_iff.mp hne)
      obtain ⟨x, y, hend, hx1, hx2, hmove⟩ := renderTagEnd_eq prev hx hy (by omega)
      rw [if_pos hclose, hlast, hend, Option.bind_some]
      obtain ⟨fb', glyphs, hrun, hdrawn⟩ := ih (s := ⟨false, x, y⟩) hnext
        (by rw [lastBracket_bracket (.inr hclose), hclose]; simp [hne']) ⟨hx1, hx2⟩ (by simp only; omega)
        (by simp only; omega) fb
      rw [hprev] at hrun
      exact hskip _ hno (by simp only; omega) fb' glyphs hrun hdrawn
    rw [if_neg hclose]
    have hsame : lastBracket (before ++ [c]) = lastBracket before :=
      lastBracket_other (not_or.mpr ⟨hopen, hclose⟩)
    have hshown : (s.inTag = false ∧ c ≠ chr '\n' ∧ c ≠ chr '\r') ↔ Shown before c := by
      simp only [Shown, List.mem_cons, List.not_mem_nil, or_false, ne_eq, ← htag]
      cases s.inTag <;> simp [hopen, hclose]
    by_cases hdraw : Shown before c
    · obtain ⟨x, y, hchar, hx1, hx2, hmove⟩ := renderChar_eq c fb hx hy (by omega)
      rw [if_pos (hshown.mpr hdraw), hchar, Option.bind_some]
      obtain ⟨fb', glyphs, hrun, htext, hplaces, horder, hstrokes⟩ := ih (s := ⟨s.inTag, x, y⟩) hnext
        (by rw [hsame]; exact htag) ⟨hx1, hx2⟩ (by simp only; omega) (by simp only; omega)
        (paint [(⟨s.x, s.y, c⟩ : Glyph).stroke] fb)
      rw [hprev] at hrun
      refine ⟨fb', ⟨s.x, s.y, c⟩ :: glyphs, hrun, ?_, ?_, ?_, ?_⟩
      · rw [shownText, if_pos hdraw, List.map_cons, htext]
      · refine List.forall_mem_cons.mpr ⟨⟨hx.1, hx.2, hy, .inl ⟨rfl, le_rfl⟩⟩, fun g hg => ?_⟩
        exact (hplaces g hg).weaken (by simp only; omega)
      · refine List.pairwise_cons.mpr ⟨fun g hg => ?_, horder⟩
        exact (hplaces g hg).weaken (by simp only; omega)
      · rw [hstrokes, List.map_cons]
        rfl
    · rw [if_neg (mt hshown.mp hdraw)]
      obtain ⟨fb', glyphs, hrun, hdrawn⟩ := ih (s := s) hnext (by rw [hsame]; exact htag) hx hy
        (by omega) fb
      rw [hprev] at hrun
      exact hskip _ hdraw (.inl ⟨rfl, le_rfl⟩) fb' glyphs hrun hdrawn

end

end PrismaticOS.Kernel
