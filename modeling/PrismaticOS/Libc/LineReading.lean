import PrismaticOS.Libc.Ctype
import PrismaticOS.Libc.FileOps
import PrismaticOS.Library.Pieces

/-!
# `fgets`

`fgetc` and `fgets` of `libc/src/stdio/fileops.c`, on a stream whose descriptor delivers the bytes of
a file.

## The model

The local variable that `fgetc` reads into is a memory of its own. No header of the library says what
`EOF` is: it is -1 here. What is left of the file is a function of the state of the kernel
(`Supplies`).

## What is proved

* `fgetsLoop_eq` — the loop reads the first piece of what is left.
* `fgets_pieces` — calls of `fgets` one after the other store the pieces of what is left, and then
  return `NULL`.
-/

namespace PrismaticOS.Libc

open PrismaticOS.Library

/-! ### The functions -/

/-- `EOF`. -/
def endOfFile : ℤ := -1

section
variable {σ : Type*}

/-- `fgetc`. -/
def fgetc (k : Kernel σ) (s : σ) : Option File → ℤ × Option File × σ
  | none => (endOfFile, none, s)
  | some stream =>
    let result := fread k s (fun _ => 0) 1 1 1 (some stream)
    if result.count ≠ 1 then (endOfFile, result.stream, result.state)
    else ((result.mem 1).toNat, result.stream, result.state)

/-- What a call of `fgets` returns and leaves. -/
structure Line (σ : Type*) where
  /-- `ptr` in the loop, and then what is returned. -/
  ptr : ℕ
  /-- The memory. -/
  mem : Mem
  /-- The stream. -/
  stream : Option File
  /-- The kernel. -/
  state : σ

/-- The loop of `fgets`, where there is room for so many characters. -/
def fgetsLoop (k : Kernel σ) : ℕ → σ → Mem → ℕ → Option File → Line σ
  | 0, s, m, ptr, stream => ⟨ptr, m, stream, s⟩
  | room + 1, s, m, ptr, stream =>
    let (c, stream, s) := fgetc k s stream
    if c = endOfFile then ⟨ptr, m, stream, s⟩
    else
      let m := Function.update m ptr (UInt8.ofNat (ofInt 8 c))
      if c = (chr '\n').toNat then ⟨ptr + 1, m, stream, s⟩
      else fgetsLoop k room s m (ptr + 1) stream

/-- `fgets`. -/
def fgets (k : Kernel σ) (s : σ) (m : Mem) (dest : ℕ) (size : ℤ) (stream : Option File) : Line σ :=
  if dest = 0 ∨ stream.isNone ∨ size ≤ 0 then ⟨0, m, stream, s⟩
  else
    let line := fgetsLoop k (size - 1).toNat s m dest stream
    if line.ptr = dest then { line with ptr := 0 }
    else { line with ptr := dest, mem := Function.update line.mem line.ptr 0 }

/-! ### What should be read -/

/-- The descriptor delivers what is left, byte by byte, and nothing at its end. -/
structure Supplies (k : Kernel σ) (fd : ℤ) (remaining : σ → List UInt8) : Prop where
  /-- The next byte. -/
  byte : ∀ s c rest, remaining s = c :: rest →
    ∃ s', k.read s fd 1 = (some [c], s') ∧ remaining s' = rest
  /-- The end. -/
  done : ∀ s, remaining s = [] → ∃ s', k.read s fd 1 = (some [], s') ∧ remaining s' = []

/-- The stream reads from the descriptor. -/
structure Readable (stream : File) (fd : ℤ) : Prop where
  /-- Its descriptor. -/
  fd : stream.fd = fd
  /-- It was opened for reading. -/
  readable : stream.flags &&& fileTypeRead ≠ 0

/-- A line ends with it. -/
def isNewline (c : UInt8) : Bool := c == chr '\n'

/-- The calls of `fgets` one after the other store these pieces, each with a zero behind it, change
nothing else, and then return `NULL`. -/
def ReadsPieces (k : Kernel σ) (dest : ℕ) (size : ℤ) :
    List (List UInt8) → σ → Mem → Option File → Prop
  | [], s, m, stream => (fgets k s m dest size stream).ptr = 0
  | piece :: more, s, m, stream =>
    (fgets k s m dest size stream).ptr = dest ∧
      loadBytes (fgets k s m dest size stream).mem dest (piece.length + 1) = piece ++ [0] ∧
      Set.EqOn (fgets k s m dest size stream).mem m (Set.Ico dest (dest + (piece.length + 1)))ᶜ ∧
      ReadsPieces k dest size more (fgets k s m dest size stream).state
        (fgets k s m dest size stream).mem (fgets k s m dest size stream).stream

variable {k : Kernel σ} {fd size : ℤ} {remaining : σ → List UInt8} {stream : File} {s : σ} {m : Mem}
  {c : UInt8} {rest : List UInt8} {ptr dest : ℕ}

/-! ### One character -/

theorem wrap_one : wrap 64 (1 * 1) = 1 := by decide

theorem fgetc_byte (h : Supplies k fd remaining) (hs : Readable stream fd)
    (hrest : remaining s = c :: rest) :
    ∃ s', fgetc k s (some stream) = ((c.toNat : ℤ), some stream, s') ∧ remaining s' = rest := by
  obtain ⟨s', hread, hleft⟩ := h.byte s c rest hrest
  refine ⟨s', ?_, hleft⟩
  rw [← hs.fd, ← wrap_one] at hread
  rw [fgetc, fread_bytes _ (by decide) hs.readable hread, if_neg (List.cons_ne_nil c [])]
  exact (if_neg (not_not.mpr (Nat.div_one 1))).trans rfl

theorem fgetc_end (h : Supplies k fd remaining) (hs : Readable stream fd) (hrest : remaining s = []) :
    ∃ s', fgetc k s (some stream) = (endOfFile, some { stream with eof := true }, s') ∧
      remaining s' = [] := by
  obtain ⟨s', hread, hleft⟩ := h.done s hrest
  refine ⟨s', ?_, hleft⟩
  rw [← hs.fd, ← wrap_one] at hread
  rw [fgetc, fread_bytes _ (by decide) hs.readable hread, if_pos rfl]
  rfl

/-! ### One line -/

/-- **The loop** reads the first piece. -/
theorem fgetsLoop_eq (h : Supplies k fd remaining) (hs : Readable stream fd) (room : ℕ) (s : σ) (m : Mem)
    (ptr : ℕ) : ∃ stream' s',
      fgetsLoop k room s m ptr (some stream) =
        ⟨ptr + (firstPiece isNewline room (remaining s)).1.length,
          storeBytes m ptr (firstPiece isNewline room (remaining s)).1, some stream', s'⟩ ∧
      Readable stream' fd ∧ remaining s' = (firstPiece isNewline room (remaining s)).2 := by
  induction room generalizing s m ptr with
  | zero => exact ⟨stream, s, by rw [fgetsLoop, firstPiece, storeBytes_nil]; rfl, hs, rfl⟩
  | succ room ih =>
    cases hrest : remaining s with
    | nil =>
      obtain ⟨s', hc, hleft⟩ := fgetc_end h hs hrest
      refine ⟨{ stream with eof := true }, s', ?_, ⟨hs.fd, hs.readable⟩, hleft⟩
      rw [fgetsLoop, hc, firstPiece, storeBytes_nil]
      rfl
    | cons c rest =>
      obtain ⟨s', hc, hleft⟩ := fgetc_byte h hs hrest
      have hnotEnd : ¬ (c.toNat : ℤ) = endOfFile := by
        rw [endOfFile]
        omega
      have hchar : UInt8.ofNat (ofInt 8 (c.toNat : ℤ)) = c := by
        have hlt := c.toNat_lt
        have hword : ofInt 8 (c.toNat : ℤ) = c.toNat := by
          unfold ofInt
          omega
        rw [hword, UInt8.ofNat_toNat]
      have hnewline : (c.toNat : ℤ) = (chr '\n').toNat ↔ isNewline c = true := by
        rw [isNewline, beq_iff_eq, Nat.cast_inj, UInt8.toNat_inj]
      rw [fgetsLoop, hc]
      simp only
      rw [if_neg hnotEnd, hchar, firstPiece]
      by_cases hstop : isNewline c = true
      · rw [if_pos (hnewline.mpr hstop), if_pos hstop]
        refine ⟨stream, s', ?_, hs, hleft⟩
        rw [← storeBytes_cons, storeBytes_nil]
        rfl
      · rw [if_neg (mt hnewline.mp hstop), if_neg hstop]
        obtain ⟨stream', s'', hloop, hs', hleft'⟩ := ih s' (Function.update m ptr c) (ptr + 1)
        rw [hleft] at hloop hleft'
        refine ⟨stream', s'', ?_, hs', hleft'⟩
        rw [hloop, storeBytes_cons, List.length_cons, Nat.add_assoc, Nat.add_comm 1]

variable {room : ℕ}

/-- A call of `fgets` with room for at least one character. -/
theorem fgets_eq (hdest : dest ≠ 0) (s : σ) (m : Mem) : fgets k s m dest (room + 2 : ℕ) (some stream) =
    if (fgetsLoop k (room + 1) s m dest (some stream)).ptr = dest then
      { fgetsLoop k (room + 1) s m dest (some stream) with ptr := 0 }
    else
      { fgetsLoop k (room + 1) s m dest (some stream) with
        ptr := dest
        mem := Function.update (fgetsLoop k (room + 1) s m dest (some stream)).mem
          (fgetsLoop k (room + 1) s m dest (some stream)).ptr 0 } := by
  have hargs : ¬ (dest = 0 ∨ (some stream).isNone ∨ ((room + 2 : ℕ) : ℤ) ≤ 0) := by
    simp only [Option.isNone_some, Bool.false_eq_true, false_or, not_or]
    exact ⟨hdest, by omega⟩
  have hroom : (((room + 2 : ℕ) : ℤ) - 1).toNat = room + 1 := by omega
  rw [fgets, if_neg hargs, hroom]

/-- Nothing is left. -/
theorem fgets_end (h : Supplies k fd remaining) (hs : Readable stream fd) (hdest : dest ≠ 0)
    (hrest : remaining s = []) (m : Mem) :
    (fgets k s m dest (room + 2 : ℕ) (some stream)).ptr = 0 := by
  obtain ⟨stream', s', hloop, -, -⟩ := fgetsLoop_eq h hs (room + 1) s m dest
  rw [hrest, firstPiece] at hloop
  rw [fgets_eq hdest, hloop]
  exact congrArg Line.ptr (if_pos rfl)

/-- **One call** stores the first piece, and a zero. -/
theorem fgets_piece (h : Supplies k fd remaining) (hs : Readable stream fd) (hdest : dest ≠ 0)
    (room : ℕ) (hrest : remaining s = c :: rest) (m : Mem) : ∃ stream' s',
      fgets k s m dest (room + 2 : ℕ) (some stream) =
        ⟨dest, storeBytes m dest ((firstPiece isNewline (room + 1) (c :: rest)).1 ++ [0]),
          some stream', s'⟩ ∧
      Readable stream' fd ∧ remaining s' = (firstPiece isNewline (room + 1) (c :: rest)).2 := by
  obtain ⟨stream', s', hloop, hs', hleft⟩ := fgetsLoop_eq h hs (room + 1) s m dest
  rw [hrest] at hloop hleft
  refine ⟨stream', s', ?_, hs', hleft⟩
  have hpos := firstPiece_pos isNewline room c rest
  rw [fgets_eq hdest, hloop]
  simp only
  rw [if_neg (by omega), storeBytes_snoc]

/-! ### All lines -/

/-- **The calls** store the pieces, by induction on the pieces. -/
theorem readsPieces_pieces (h : Supplies k fd remaining) (hs : Readable stream fd) (hdest : dest ≠ 0)
    (m : Mem) {left : List UInt8} (hrest : remaining s = left) :
    ReadsPieces k dest (room + 2 : ℕ) (Library.pieces isNewline room left) s m (some stream) := by
  fun_induction Library.pieces isNewline room left generalizing s m stream with
  | case1 => exact fgets_end h hs hdest hrest m
  | case2 c rest ih =>
    obtain ⟨stream', s', hline, hs', hleft⟩ := fgets_piece h hs hdest room hrest m
    rw [ReadsPieces, hline]
    refine ⟨rfl, ?_, ?_, ih hs' _ hleft⟩
    · have hlength : (firstPiece isNewline (room + 1) (c :: rest)).1.length + 1 =
          ((firstPiece isNewline (room + 1) (c :: rest)).1 ++ [0]).length := by
        rw [List.length_append, List.length_singleton]
      simp only
      rw [hlength, loadBytes_storeBytes m dest le_rfl, List.take_length]
    · have hsame := storeBytes_eqOn m dest ((firstPiece isNewline (room + 1) (c :: rest)).1 ++ [0])
      rwa [List.length_append, List.length_singleton] at hsame

/-- **Line reading loses nothing**: calls of `fgets` one after the other store pieces, each with a
zero behind it, and then return `NULL`; the pieces are what was left of the file, at most as long as
the buffer allows, with a newline at their ends only, and only the last one may be shorter without
one. -/
theorem fgets_pieces (h : Supplies k fd remaining) (hs : Readable stream fd) (hdest : dest ≠ 0)
    (hsize : 2 ≤ size) (s : σ) (m : Mem) : ∃ lines : List (List UInt8),
      ReadsPieces k dest size lines s m (some stream) ∧ lines.flatten = remaining s ∧
      ∀ (i : ℕ) line, lines[i]? = some line →
        Library.Piece isNewline (size - 1).toNat line (i + 1 = lines.length) := by
  obtain ⟨room, hroom⟩ := Int.eq_ofNat_of_zero_le (Int.sub_nonneg_of_le hsize)
  obtain rfl : size = (room + 2 : ℕ) := by omega
  have hbound : (((room + 2 : ℕ) : ℤ) - 1).toNat = room + 1 := by omega
  rw [hbound]
  exact ⟨Library.pieces isNewline room (remaining s), readsPieces_pieces h hs hdest m rfl,
    pieces_flatten .., pieces_spec isNewline room (remaining s)⟩

end

/-- A kernel with a file. -/
def fileKernel : Kernel (List UInt8) where
  read s _ count := (some (s.take count), s.drop count)
  write s _ _ := (none, s)
  read_le s fd count bytes h := by
    rw [← Option.some.inj h, List.length_take]
    exact Nat.min_le_left ..
  write_le := nofun

theorem fileKernel_supplies : Supplies fileKernel 3 id where
  byte s c rest h := by
    subst h
    exact ⟨rest, rfl, rfl⟩
  done s h := by
    subst h
    exact ⟨[], rfl, rfl⟩

/-- Two lines, of which the first is longer than the buffer and the second has no newline. -/
theorem fgets_pieces_lines : (Supplies fileKernel 3 id ∧ Readable ⟨3, 1, false, false⟩ 3) ∧
    ∃ lines : List (List UInt8),
      ReadsPieces fileKernel 8 3 lines (str "abc\nd") (fun _ => 0) (some ⟨3, 1, false, false⟩) ∧
      lines.flatten = str "abc\nd" ∧
      ∀ (i : ℕ) line, lines[i]? = some line →
        Library.Piece isNewline (3 - 1 : ℤ).toNat line (i + 1 = lines.length) :=
  have hs : Readable ⟨3, 1, false, false⟩ 3 := ⟨rfl, by decide⟩
  ⟨⟨fileKernel_supplies, hs⟩,
    fgets_pieces fileKernel_supplies hs (by decide) (by decide) (str "abc\nd") fun _ => 0⟩

end PrismaticOS.Libc
