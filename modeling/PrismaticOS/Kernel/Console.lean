import PrismaticOS.Library.Loops
import PrismaticOS.Libc.Ctype
import Mathlib.Logic.Function.Basic

/-!
# The console

`kernel/console.c`: text on the VGA screen, 80 columns and 25 rows of cells with a character
and a colour.

## The model

The screen is the memory at `0xB8000`, one 16-bit word for each cell. A store beyond the 2000
cells is not one to the screen: the call returns nothing then. A `char` is signed, so the
characters from 128 on are less than a space.

## What is proved

* `clear_eq`, `scrollUp_eq` — what the two loops leave.
-/

namespace PrismaticOS.Kernel

open PrismaticOS.Library PrismaticOS.Libc

/-- The variables of `console.c`, and the screen. -/
structure Console where
  /-- `vga_buffer`. -/
  buffer : ℕ → UInt16
  /-- `console_x`. -/
  x : UInt8
  /-- `console_y`. -/
  y : UInt8
  /-- `console_color`. -/
  color : UInt8

/-- `CONSOLE_WIDTH`. -/
abbrev consoleWidth : ℕ := 80

/-- `CONSOLE_HEIGHT`. -/
abbrev consoleHeight : ℕ := 25

/-- `vga_entry_color`. -/
def vgaEntryColor (fg bg : UInt8) : UInt8 := fg ||| (bg <<< 4)

/-- `vga_entry`. -/
def vgaEntry (uc color : UInt8) : UInt16 := uc.toUInt16 ||| (color.toUInt16 <<< 8)

/-- `vga_buffer[index] = entry`. -/
def Console.store (s : Console) (index : ℕ) (entry : UInt16) : Option Console :=
  if index < consoleHeight * consoleWidth then
    some { s with buffer := Function.update s.buffer index entry }
  else none

/-- `console_clear`. -/
def consoleClear (s : Console) : Option Console :=
  (forTable consoleHeight consoleWidth
    (fun y x s => s.store (y * consoleWidth + x) (vgaEntry (chr ' ') s.color)) s).map
    fun s => { s with x := 0, y := 0 }

/-- `console_set_color`. -/
def consoleSetColor (s : Console) (fg bg : UInt8) : Console :=
  { s with color := vgaEntryColor fg bg }

/-- `console_init`. -/
def consoleInit (s : Console) : Option Console :=
  (consoleClear s).map fun s => consoleSetColor s 7 0

/-- `console_scroll_up`. -/
def consoleScrollUp (s : Console) : Option Console :=
  (forTable (consoleHeight - 1) consoleWidth
    (fun y x s => s.store (y * consoleWidth + x) (s.buffer ((y + 1) * consoleWidth + x))) s).bind
    (forRange consoleWidth
      fun x s => s.store ((consoleHeight - 1) * consoleWidth + x) (vgaEntry (chr ' ') s.color))

/-- The end of `console_putc`: a row ends, and the screen scrolls. -/
def consoleWrap (s : Console) : Option Console :=
  let s := if consoleWidth ≤ s.x.toNat then { s with x := 0, y := s.y + 1 } else s
  if consoleHeight ≤ s.y.toNat then
    (consoleScrollUp s).map fun s => { s with y := UInt8.ofNat (consoleHeight - 1) }
  else some s

/-- `console_putc`. -/
def consolePutc (s : Console) (c : UInt8) : Option Console :=
  if c = chr '\n' then consoleWrap { s with x := 0, y := s.y + 1 }
  else if c = chr '\r' then consoleWrap { s with x := 0 }
  else if c = chr '\t' then consoleWrap { s with x := (s.x + 8) &&& ~~~7 }
  else if chr ' ' ≤ c ∧ c < 128 then
    (s.store (s.y.toNat * consoleWidth + s.x.toNat) (vgaEntry c s.color)).bind
      fun s => consoleWrap { s with x := s.x + 1 }
  else consoleWrap s

/-- `console_puts`, where `str` is the memory that the string is in. -/
def consolePuts (s : Console) (str : List UInt8) : Option Console :=
  (str.takeWhile (· != 0)).foldlM consolePutc s

/-- `console_set_cursor`. -/
def consoleSetCursor (s : Console) (x y : UInt8) : Console :=
  if x.toNat < consoleWidth ∧ y.toNat < consoleHeight then { s with x := x, y := y } else s

/-! ### The loops -/

/-- The screen, where the first `i` cells are those of `f`. -/
def Console.filled (s : Console) (f : ℕ → UInt16) (i : ℕ) : Console :=
  { s with buffer := fun k => if k < i then f k else s.buffer k }

/-- The next cell. -/
theorem filled_store (s : Console) (f : ℕ → UInt16) {i : ℕ} (hi : i < 2000) :
    (s.filled f i).store i (f i) = some (s.filled f (i + 1)) := by
  have hstore : (s.filled f i).store i (f i) = some { s.filled f i with
      buffer := Function.update (s.filled f i).buffer i (f i) } := if_pos hi
  rw [hstore]
  unfold Console.filled
  simp only [update_below]

/-- `console_clear` fills the screen. -/
theorem clear_eq (s : Console) : consoleClear s =
    some { s.filled (fun _ => vgaEntry (chr ' ') s.color) 2000 with x := 0, y := 0 } := by
  obtain ⟨s', hloop, rfl⟩ := forTable_rule
    (fun i t => t = s.filled (fun _ => vgaEntry (chr ' ') s.color) i) 25 80
    (fun y x s => s.store (y * 80 + x) (vgaEntry (chr ' ') s.color))
    (show s = _ by simp [Console.filled])
    (by
      rintro y hy x hx t rfl
      exact ⟨_, filled_store s (fun _ => vgaEntry (chr ' ') s.color) (by omega), rfl⟩)
  unfold consoleClear
  rw [show forTable consoleHeight consoleWidth _ s = _ from hloop]
  rfl

/-- The cells after `console_scroll_up`. -/
def Console.scrolled (s : Console) (k : ℕ) : UInt16 :=
  if k < 1920 then s.buffer (k + 80) else vgaEntry (chr ' ') s.color

/-- `console_scroll_up` moves the rows up and clears the last one. -/
theorem scrollUp_eq (s : Console) : consoleScrollUp s = some (s.filled s.scrolled 2000) := by
  obtain ⟨s₁, hrows, rfl⟩ := forTable_rule (fun i t => t = s.filled s.scrolled i) 24 80
    (fun y x s => s.store (y * 80 + x) (s.buffer ((y + 1) * 80 + x)))
    (show s = _ by simp [Console.filled])
    (by
      rintro y hy x hx t rfl
      -- the cell below was not written yet
      have hread : (s.filled s.scrolled (y * 80 + x)).buffer ((y + 1) * 80 + x) =
          s.scrolled (y * 80 + x) := by
        have hbelow : (y + 1) * 80 + x = y * 80 + x + 80 := by omega
        rw [hbelow, Console.scrolled, if_pos (by omega)]
        exact if_neg (by omega)
      rw [hread]
      exact ⟨_, filled_store s s.scrolled (by omega), rfl⟩)
  obtain ⟨s₂, hlast, rfl⟩ := forRange_rule (fun x t => t = s.filled s.scrolled (1920 + x)) 80
    (fun x s => s.store (24 * 80 + x) (vgaEntry (chr ' ') s.color)) rfl
    (by
      rintro x hx t rfl
      have hblank : vgaEntry (chr ' ') s.color = s.scrolled (1920 + x) :=
        (if_neg (by omega)).symm
      show ∃ s', Console.store _ (1920 + x) (vgaEntry (chr ' ') s.color) = some s' ∧ _
      rw [hblank]
      exact ⟨_, filled_store s s.scrolled (by omega), rfl⟩)
  unfold consoleScrollUp
  rw [show forTable (consoleHeight - 1) consoleWidth _ s = _ from hrows]
  exact hlast

end PrismaticOS.Kernel
