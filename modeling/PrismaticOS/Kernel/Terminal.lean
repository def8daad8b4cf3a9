import PrismaticOS.Kernel.Console
import PrismaticOS.Library.Runs

/-!
# The console is a terminal

What `console.c` keeps in 2000 cells and moves up when the screen is full is a window on a
terminal that never forgets a row.

## The model

`Terminal` is that terminal: rows without end, a window of 25 rows, and a cursor in it. It puts
a character where the cursor is, goes on in the next row after the last column, and has tab
stops every eight columns; a row that comes into the window is blank, in the colour of the time.
`Shows` says that the screen and the cursor of a console are those of a terminal.

## What is proved

* `wrap_shows`, `putc_shows` — one character.
* `console_shows` — after `console_init`, every sequence of calls returns, stores to the 2000
  cells only, and leaves a console that shows the terminal after these calls.
-/

namespace PrismaticOS.Kernel

open PrismaticOS.Library PrismaticOS.Libc

/-! ### Terminals -/

/-- A terminal. -/
structure Terminal where
  /-- The rows from the first one on, with the character and the colour of every cell. -/
  rows : ℕ → ℕ → UInt8 × UInt8
  /-- The first row of the window. -/
  top : ℕ
  /-- The column of the cursor. -/
  x : ℕ
  /-- The row of the cursor. -/
  y : ℕ
  /-- The colour. -/
  color : UInt8

namespace Terminal

variable (t : Terminal)

/-- A blank row in the colour of the time. -/
def blankRow : ℕ → UInt8 × UInt8 := fun _ => (chr ' ', t.color)

/-- The cursor goes to the start of the next row, which comes into the window if it was below
it. -/
def newline : Terminal :=
  if t.y + 1 < t.top + 25 then { t with x := 0, y := t.y + 1 }
  else
    { t with
      rows := Function.update t.rows (t.top + 25) t.blankRow
      top := t.top + 1
      x := 0
      y := t.y + 1 }

/-- The cursor goes to a column, or to the next row if there is no such column. -/
def advance (x : ℕ) : Terminal := if x < 80 then { t with x := x } else t.newline

/-- A character is written where the cursor is. -/
def write (c : UInt8) : Terminal :=
  { t with rows := Function.update t.rows t.y (Function.update (t.rows t.y) t.x (c, t.color)) }

/-- A character is put on the terminal. Control characters, and those that are not ASCII, do
nothing. -/
def putc (c : UInt8) : Terminal :=
  if c = chr '\n' then t.newline
  else if c = chr '\r' then { t with x := 0 }
  else if c = chr '\t' then t.advance ((t.x / 8 + 1) * 8)
  else if chr ' ' ≤ c ∧ c < 128 then (t.write c).advance (t.x + 1)
  else t

/-- The window is cleared, and the cursor goes to its first cell. -/
def clear : Terminal :=
  { t with rows := fun y => if t.top ≤ y then t.blankRow else t.rows y, x := 0, y := t.top }

/-- The cursor goes to a cell of the window. -/
def setCursor (x y : ℕ) : Terminal :=
  if x < 80 ∧ y < 25 then { t with x := x, y := t.top + y } else t

/-- A new terminal, blank in a colour, that then writes in light grey. -/
def new (color : UInt8) : Terminal := ⟨fun _ _ => (chr ' ', color), 0, 0, 0, vgaEntryColor 7 0⟩

end Terminal

/-! ### Calls -/

/-- A call. -/
inductive ConsoleCall where
  /-- `console_clear()`. -/
  | clear
  /-- `console_set_color(fg, bg)`. -/
  | setColor (fg bg : UInt8)
  /-- `console_set_cursor(x, y)`. -/
  | setCursor (x y : UInt8)
  /-- `console_putc(c)`. -/
  | putc (c : UInt8)
  /-- `console_puts(str)`. -/
  | puts (str : List UInt8)

/-- A call on the console. -/
def consoleStep (s : Console) : ConsoleCall → Option Console
  | .clear => consoleClear s
  | .setColor fg bg => some (consoleSetColor s fg bg)
  | .setCursor x y => some (consoleSetCursor s x y)
  | .putc c => consolePutc s c
  | .puts str => consolePuts s str

/-- What the call does on a terminal. -/
def Terminal.step (t : Terminal) : ConsoleCall → Terminal
  | .clear => t.clear
  | .setColor fg bg => { t with color := vgaEntryColor fg bg }
  | .setCursor x y => t.setCursor x.toNat y.toNat
  | .putc c => t.putc c
  | .puts str => (str.takeWhile (· != 0)).foldl Terminal.putc t

/-! ### The window -/

/-- The screen shows the window, and the colours are the same. -/
structure Screen (s : Console) (t : Terminal) : Prop where
  /-- The cells. -/
  cells : ∀ i < 25, ∀ j < 80,
    s.buffer (i * 80 + j) = vgaEntry (t.rows (t.top + i) j).1 (t.rows (t.top + i) j).2
  /-- The colour. -/
  color : s.color = t.color

/-- The console shows the terminal. -/
structure Shows (s : Console) (t : Terminal) : Prop where
  /-- The screen. -/
  screen : Screen s t
  /-- The column of the cursor. -/
  x : s.x.toNat = t.x
  /-- The row of the cursor. -/
  y : t.top + s.y.toNat = t.y
  /-- The cursor is in a column. -/
  inX : s.x.toNat < 80
  /-- The cursor is in the window. -/
  inY : s.y.toNat < 25

variable {s : Console} {t : Terminal}

/-- In a row, only the last part of `console_putc` is left. -/
theorem wrap_eq (hx : s.x.toNat < 80) : consoleWrap s =
    if 25 ≤ s.y.toNat then (consoleScrollUp s).map fun s => { s with y := 24 } else some s := by
  have hno : ¬ consoleWidth ≤ s.x.toNat := Nat.not_le.mpr hx
  unfold consoleWrap
  simp only [hno, if_false]
  rfl

/-- After the last column comes the next row. -/
theorem wrap_end (hx : ¬ s.x.toNat < 80) :
    consoleWrap s = consoleWrap { s with x := 0, y := s.y + 1 } := by
  have hend : consoleWidth ≤ s.x.toNat := Nat.not_lt.mp hx
  have hfirst : (0 : UInt8).toNat < 80 := by decide
  rw [wrap_eq (s := { s with x := 0, y := s.y + 1 }) hfirst]
  unfold consoleWrap
  simp only [hend, if_true]
  rfl

/-- The row after the one of the cursor. -/
theorem succ_row (hy : s.y.toNat < 25) : (s.y + 1).toNat = s.y.toNat + 1 := by
  have hone : (1 : UInt8).toNat = 1 := rfl
  rw [UInt8.toNat_add, hone]
  exact Nat.mod_eq_of_lt (by omega)

/-- **The next row.** -/
theorem newline_shows (h : Screen s t) (hy : s.y.toNat < 25) (hrow : t.top + s.y.toNat = t.y) :
    ∃ s', consoleWrap { s with x := 0, y := s.y + 1 } = some s' ∧ Shows s' t.newline := by
  have hnext := succ_row hy
  have hfirst : (0 : UInt8).toNat < 80 := by decide
  have hbottom : (24 : UInt8).toNat < 25 := by decide
  rw [wrap_eq (s := { s with x := 0, y := s.y + 1 }) hfirst]
  simp only
  unfold Terminal.newline
  by_cases hlast : s.y.toNat = 24
  · rw [if_pos (by omega), scrollUp_eq, if_neg (by omega)]
    refine ⟨_, rfl, ⟨?_, h.color⟩, rfl, ?_, hfirst, hbottom⟩
    · intro i hi j hj
      show (if i * 80 + j < 2000 then (if i * 80 + j < 1920 then s.buffer (i * 80 + j + 80) else
        vgaEntry (chr ' ') s.color) else _) = _
      rw [if_pos (by omega)]
      by_cases hnew : i = 24
      · have hread : t.top + 1 + i = t.top + 25 := by omega
        simp only [hread, Function.update_self, Terminal.blankRow]
        rw [if_neg (by omega), h.color]
      · have hbelow : i * 80 + j + 80 = (i + 1) * 80 + j := by omega
        have hne : t.top + 1 + i ≠ t.top + 25 := by omega
        have hmoved : t.top + 1 + i = t.top + (i + 1) := by omega
        simp only [Function.update_of_ne hne]
        rw [if_pos (by omega), hbelow, h.cells (i + 1) (by omega) j hj, hmoved]
    · show t.top + 1 + 24 = t.y + 1
      omega
  · rw [if_neg (by omega), if_pos (by omega)]
    refine ⟨_, rfl, ⟨h.cells, h.color⟩, rfl, ?_, hfirst, ?_⟩
    · show t.top + (s.y + 1).toNat = t.y + 1
      omega
    · show (s.y + 1).toNat < 25
      omega

/-- **The end of `console_putc`**: the cursor goes to a column, or to the next row. -/
theorem wrap_shows (h : Screen s t) {x : ℕ} (hy : s.y.toNat < 25)
    (hrow : t.top + s.y.toNat = t.y) (hx : s.x.toNat = x) :
    ∃ s', consoleWrap s = some s' ∧ Shows s' (t.advance x) := by
  unfold Terminal.advance
  by_cases hfits : x < 80
  · rw [wrap_eq (by omega), if_neg (by omega), if_pos hfits]
    exact ⟨s, rfl, ⟨h.cells, h.color⟩, hx, hrow, hx ▸ hfits, hy⟩
  · rw [wrap_end (by omega), if_neg hfits]
    exact newline_shows h hy hrow

/-- Staying in the row. -/
theorem advance_self (h : t.x < 80) : t.advance t.x = t := if_pos h

/-- The cells after a character was written. -/
theorem write_rows (t : Terminal) (c : UInt8) (y x : ℕ) : (t.write c).rows y x =
    if y = t.y ∧ x = t.x then (c, t.color) else t.rows y x := by
  unfold Terminal.write
  simp only [Function.update_apply]
  by_cases hy : y = t.y
  · by_cases hx : x = t.x <;> simp [hy, hx]
  · simp [hy]

/-- The next tab stop. -/
theorem tab_stop : ∀ x < 80, ((UInt8.ofNat x + 8) &&& ~~~7).toNat = (x / 8 + 1) * 8 := by
  decide +kernel

/-- **A character.** -/
theorem putc_shows (h : Shows s t) (c : UInt8) :
    ∃ s', consolePutc s c = some s' ∧ Shows s' (t.putc c) := by
  obtain ⟨hscreen, hx, hrow, hinX, hinY⟩ := h
  unfold consolePutc Terminal.putc
  split_ifs with hnl hcr htab hprint
  · exact newline_shows hscreen hinY hrow
  · exact wrap_shows (s := { s with x := 0 }) (x := 0) ⟨hscreen.cells, hscreen.color⟩ hinY hrow rfl
  · -- the next tab stop
    have hstop : ((s.x + 8) &&& ~~~7).toNat = (t.x / 8 + 1) * 8 := by
      rw [← hx, ← UInt8.ofNat_toNat (x := s.x), tab_stop _ hinX, UInt8.ofNat_toNat]
    exact wrap_shows (s := { s with x := (s.x + 8) &&& ~~~7 })
      ⟨hscreen.cells, hscreen.color⟩ hinY hrow hstop
  · -- a character is written
    have hindex : s.y.toNat * 80 + s.x.toNat < 2000 := by omega
    have hstore : s.store (s.y.toNat * 80 + s.x.toNat) (vgaEntry c s.color) = some
        { s with
          buffer := Function.update s.buffer (s.y.toNat * 80 + s.x.toNat) (vgaEntry c s.color) } :=
      if_pos hindex
    rw [hstore]
    have hnext : (s.x + 1).toNat = t.x + 1 := by
      have hone : (1 : UInt8).toNat = 1 := rfl
      rw [UInt8.toNat_add, ← hx, hone]
      exact Nat.mod_eq_of_lt (by omega)
    refine wrap_shows (s := { s with
      buffer := Function.update s.buffer (s.y.toNat * 80 + s.x.toNat) (vgaEntry c s.color)
      x := s.x + 1 }) (t := t.write c) ⟨?_, hscreen.color⟩ hinY hrow hnext
    intro i hi j hj
    show Function.update s.buffer (s.y.toNat * 80 + s.x.toNat) (vgaEntry c s.color) (i * 80 + j) =
      vgaEntry ((t.write c).rows (t.top + i) j).1 ((t.write c).rows (t.top + i) j).2
    rw [write_rows]
    by_cases hcell : i = s.y.toNat ∧ j = s.x.toNat
    · rw [if_pos (by omega), hcell.1, hcell.2, Function.update_self, hscreen.color]
    · rw [if_neg (by omega), Function.update_of_ne (by omega)]
      exact hscreen.cells i hi j hj
  · -- another character
    have hwrap := wrap_shows hscreen hinY hrow hx
    rwa [advance_self (hx ▸ hinX)] at hwrap

/-- **A string**, by induction on it. -/
theorem puts_shows (h : Shows s t) (cs : List UInt8) :
    ∃ s', cs.foldlM consolePutc s = some s' ∧ Shows s' (cs.foldl Terminal.putc t) := by
  induction cs generalizing s t with
  | nil => exact ⟨s, rfl, h⟩
  | cons c cs ih =>
    obtain ⟨s₁, hputc, hshows⟩ := putc_shows h c
    obtain ⟨s', hputs, hend⟩ := ih hshows
    refine ⟨s', ?_, hend⟩
    rw [List.foldlM_cons, hputc]
    exact hputs

/-- **Clearing the screen.** -/
theorem clear_shows (s : Console) {rows : ℕ → ℕ → UInt8 × UInt8} {top : ℕ}
    (hrows : ∀ i, rows (top + i) = fun _ => (chr ' ', s.color)) :
    ∃ s', consoleClear s = some s' ∧ Shows s' ⟨rows, top, 0, top, s.color⟩ := by
  have hfirst : (0 : UInt8).toNat < 80 := by decide
  have htop : (0 : UInt8).toNat < 25 := by decide
  refine ⟨_, clear_eq s, ⟨?_, rfl⟩, rfl, rfl, hfirst, htop⟩
  intro i hi j hj
  show (if i * 80 + j < 2000 then _ else _) = vgaEntry (rows (top + i) j).1 (rows (top + i) j).2
  rw [if_pos (by omega), hrows]

/-- **One call.** -/
theorem step_shows (h : Shows s t) (call : ConsoleCall) :
    ∃ s', consoleStep s call = some s' ∧ Shows s' (t.step call) := by
  cases call with
  | clear =>
    have hrows : ∀ i, t.clear.rows (t.top + i) = fun _ => (chr ' ', s.color) := by
      intro i
      rw [h.screen.color]
      exact if_pos (Nat.le_add_right _ _)
    obtain ⟨s', hclear, hshows⟩ := clear_shows s hrows
    rw [h.screen.color] at hshows
    exact ⟨s', hclear, hshows⟩
  | setColor fg bg => exact ⟨_, rfl, ⟨h.screen.cells, rfl⟩, h.x, h.y, h.inX, h.inY⟩
  | setCursor x y =>
    refine ⟨_, rfl, ?_⟩
    show Shows (consoleSetCursor s x y) (t.setCursor x.toNat y.toNat)
    unfold consoleSetCursor Terminal.setCursor
    split_ifs with hin
    · exact ⟨⟨h.screen.cells, h.screen.color⟩, rfl, rfl, hin.1, hin.2⟩
    · exact h
  | putc c => exact putc_shows h c
  | puts str => exact puts_shows h _

/-- **The console is a terminal.** Whatever was on the screen, after `console_init` every
sequence of calls returns, storing to the 2000 cells only, and leaves the last 25 rows of a
terminal on the screen, with its cursor in them. -/
theorem console_shows (s : Console) (calls : List ConsoleCall) : ∃ s₀ s',
    consoleInit s = some s₀ ∧ run consoleStep s₀ calls = some s' ∧
      Shows s' (calls.foldl Terminal.step (.new s.color)) := by
  have hrows : ∀ i, (Terminal.new s.color).rows (0 + i) = fun _ => (chr ' ', s.color) := fun _ => rfl
  obtain ⟨s₁, hclear, hcleared⟩ := clear_shows s hrows
  have hinit : consoleInit s = some (consoleSetColor s₁ 7 0) := by
    rw [consoleInit, hclear, Option.map_some]
  have hstart : Shows (consoleSetColor s₁ 7 0) (.new s.color) :=
    ⟨⟨hcleared.screen.cells, rfl⟩, hcleared.x, hcleared.y, hcleared.inX, hcleared.inY⟩
  have hrun : ∀ (calls : List ConsoleCall) (s : Console) (t : Terminal), Shows s t →
      ∃ s', run consoleStep s calls = some s' ∧ Shows s' (calls.foldl Terminal.step t) := by
    intro calls
    induction calls with
    | nil => exact fun s t h => ⟨s, rfl, h⟩
    | cons call calls ih =>
      intro s t h
      obtain ⟨s₁, hstep, hshows⟩ := step_shows h call
      obtain ⟨s', hrest, hend⟩ := ih s₁ _ hshows
      exact ⟨s', by rw [run, hstep]; exact hrest, hend⟩
  obtain ⟨s', hcalls, hend⟩ := hrun calls _ _ hstart
  exact ⟨_, s', hinit, hcalls, hend⟩

end PrismaticOS.Kernel
