import PrismaticOS.Libc.Ctype
import PrismaticOS.Library.Numerals

/-!
# Formatted output

`libc/src/stdio/printf.c`: the buffer, `format_int`, `format_string`, `vprintf_internal`, and
`printf` and `snprintf` over them.

## The model

A format is the bytes from the pointer on, its final zero and what is behind it in memory
included, and an argument is the eight bytes that `va_arg` takes for an integer or a pointer.
`none` is the outcome of a call that reads after the end of these, takes an argument that is
not there, or writes before the local buffer of `format_int`. That function does not end its
buffer with a zero and goes on in the memory behind it, which `PrintfMemory` has, together with
the strings that the arguments point to. A stream takes every byte. `int` wraps around.

Neither `format_int` nor `format_string` reads what it has printed, so each of them is the
characters that it passes to `buffer_putc`.

## What is proved

* `nextPiece_length` — a turn of the loop takes a part of the format, so the loop ends.
* `vprintfLoop_eq` — the loop prints the pieces of the format one after the other, to a stream
  and to an array alike.
-/

namespace PrismaticOS.Libc

open PrismaticOS.Library

/-! ### The buffer -/

/-- A `struct printf_buffer`. -/
structure PrintfBuffer where
  /-- What has been stored in `buffer`, by index. -/
  buffer : ℕ → Option UInt8
  /-- `size`. -/
  size : UInt64
  /-- `pos`. -/
  pos : UInt64
  /-- What has been written to `stream`, if that is not null. -/
  stream : Option Str

/-- `buffer_putc`. -/
def bufferPutc (buf : PrintfBuffer) (c : UInt8) : PrintfBuffer :=
  match buf.stream with
  | some written => { buf with stream := some (written ++ [c]) }
  | none =>
    if buf.pos < buf.size then
      { buf with buffer := Function.update buf.buffer buf.pos.toNat (some c), pos := buf.pos + 1 }
    else buf

/-- `buffer_puts`, and every other loop over `buffer_putc`. -/
def bufferPuts (buf : PrintfBuffer) (text : Str) : PrintfBuffer := text.foldl bufferPutc buf

@[simp]
theorem bufferPuts_nil (buf : PrintfBuffer) : bufferPuts buf [] = buf := rfl

theorem bufferPuts_append (buf : PrintfBuffer) (s t : Str) :
    bufferPuts buf (s ++ t) = bufferPuts (bufferPuts buf s) t :=
  List.foldl_append

/-- A stream gets every character. -/
theorem bufferPuts_stream {buf : PrintfBuffer} {written : Str} (h : buf.stream = some written)
    (text : Str) : bufferPuts buf text = { buf with stream := some (written ++ text) } := by
  induction text generalizing buf written with
  | nil => rw [bufferPuts_nil, List.append_nil, ← h]
  | cons c text ih =>
    have hputc : bufferPutc buf c = { buf with stream := some (written ++ [c]) } := by
      simp only [bufferPutc, h]
    calc bufferPuts buf (c :: text) = bufferPuts (bufferPutc buf c) text := rfl
      _ = { buf with stream := some (written ++ c :: text) } := by
        rw [ih (congrArg PrintfBuffer.stream hputc), hputc, List.append_assoc, List.singleton_append]

/-! ### The conversions -/

/-- What a call of `vprintf_internal` finds in memory. -/
structure PrintfMemory where
  /-- The string at an address. -/
  string : UInt64 → Str
  /-- What is behind the local buffer of `format_int` when this many bytes of the format are
  left. -/
  behind : ℕ → Str

/-- `while (*ptr)`: the bytes before the first zero. -/
def untilZero (cells : Str) : Option Str :=
  if 0 ∈ cells then some (cells.takeWhile (· != 0)) else none

/-- The character of a digit in `format_int`. -/
def digitChar (digit : ℕ) : UInt8 :=
  if digit < 10 then UInt8.ofNat ('0'.toNat + digit) else UInt8.ofNat ('A'.toNat + digit - 10)

/-- What `format_int` has in its buffer when it comes to the width: the digits, and before them
the sign and the zeros that the precision asks for. -/
def intCells (value : Int64) (base : ℕ) (precision : Int32) (flags : UInt32) : Str :=
  let negative := value < 0 ∧ base = 10
  let magnitude := if negative then -value else value
  let digits :=
    if magnitude = 0 then [chr '0'] else writeDigits digitChar base magnitude.toInt.toNat []
  let sign :=
    if negative then [chr '-'] else if flags &&& 1 ≠ 0 then [chr '+']
    else if flags &&& 2 ≠ 0 then [chr ' '] else []
  List.replicate (precision.toInt - (sign ++ digits).length).toNat (chr '0') ++ (sign ++ digits)

/-- `format_int`. -/
def formatInt (value : Int64) (base : ℕ) (width precision : Int32) (flags : UInt32)
    (behind : Str) : Option Str :=
  let cells := intCells value base precision flags
  let missing := (width.toInt - cells.length).toNat
  if 64 < cells.length then none
  else if flags &&& 4 ≠ 0 then
    if (cells ++ behind).length < missing then none
    else (untilZero ((cells ++ behind).drop missing)).map ((cells ++ behind).take missing ++ ·)
  else (untilZero (cells ++ behind)).map (List.replicate missing (chr ' ') ++ ·)

/-- `format_string`. -/
def formatString (s : Str) (width precision : Int32) : Str :=
  let len := Int32.ofNat s.length
  let len := if 0 ≤ precision ∧ precision < len then precision else len
  List.replicate (width - len).toInt.toNat (chr ' ') ++ s.take len.toInt.toNat

/-- `length` in `vprintf_internal`. -/
inductive LengthModifier where
  /-- None. -/
  | none
  /-- `hh` and `h`. -/
  | hh | h
  /-- `l` and `ll`. -/
  | l | ll
  /-- `j`, `z`, `t` and `L`. -/
  | j | z | t | L
  deriving DecidableEq

/-- The `value` that `d` and `i` read. -/
def signedArg (length : LengthModifier) (slot : UInt64) : Int64 :=
  match length with
  | .hh => slot.toUInt32.toInt32.toInt8.toInt64
  | .h => slot.toUInt32.toInt32.toInt16.toInt64
  | .l | .ll => slot.toInt64
  | _ => slot.toUInt32.toInt32.toInt64

/-- The `value` that `u`, `x`, `X` and `o` read. -/
def unsignedArg (length : LengthModifier) (slot : UInt64) : UInt64 :=
  match length with
  | .hh => slot.toUInt32.toUInt8.toUInt64
  | .h => slot.toUInt32.toUInt16.toUInt64
  | .l | .ll => slot
  | _ => slot.toUInt32.toUInt64

/-! ### Reading the format -/

/-- A conversion specification, up to its specifier. -/
structure FormatSpec where
  /-- `flags`. -/
  flags : UInt32
  /-- `width`. -/
  width : Int32
  /-- `precision`. -/
  precision : Int32
  /-- `length`. -/
  length : LengthModifier

/-- The flags, and the rest. -/
def parseFlags : Str → UInt32 → UInt32 × Str
  | [], flags => (flags, [])
  | c :: rest, flags =>
    if c = chr '+' then parseFlags rest (flags ||| 1)
    else if c = chr ' ' then parseFlags rest (flags ||| 2)
    else if c = chr '-' then parseFlags rest (flags ||| 4)
    else if c = chr '0' then parseFlags rest (flags ||| 8)
    else (flags, c :: rest)

/-- A number, and the rest. -/
def parseNumber : Str → Int32 → Int32 × Str
  | [], number => (number, [])
  | c :: rest, number =>
    if isdigit c then parseNumber rest (number * 10 + (c - chr '0').toUInt32.toInt32)
    else (number, c :: rest)

/-- A number or, for `*`, an argument, and the rests. -/
def parseCount (format : Str) (args : List UInt64) : Option (Int32 × Str × List UInt64) :=
  if format.head? = some (chr '*') then
    args.head?.map fun slot => (slot.toUInt32.toInt32, format.tail, args.tail)
  else some ((parseNumber format 0).1, (parseNumber format 0).2, args)

/-- The precision, −1 without one, and the rests. -/
def parsePrecision (format : Str) (args : List UInt64) : Option (Int32 × Str × List UInt64) :=
  if format.head? = some (chr '.') then parseCount format.tail args else some (-1, format, args)

/-- The length modifier, and the rest. -/
def parseLength : Str → LengthModifier × Str
  | [] => (.none, [])
  | c :: rest =>
    if c = chr 'h' then if rest.head? = some (chr 'h') then (.hh, rest.tail) else (.h, rest)
    else if c = chr 'l' then if rest.head? = some (chr 'l') then (.ll, rest.tail) else (.l, rest)
    else if c = chr 'j' then (.j, rest)
    else if c = chr 'z' then (.z, rest)
    else if c = chr 't' then (.t, rest)
    else if c = chr 'L' then (.L, rest)
    else (.none, c :: rest)

/-- What is between a `%` and the specifier, and the rests. -/
def parseSpec (format : Str) (args : List UInt64) : Option (FormatSpec × Str × List UInt64) :=
  let (flags, format) := parseFlags format 0
  (parseCount format args).bind fun (width, format, args) =>
    (parsePrecision format args).map fun (precision, format, args) =>
      (⟨flags, width, precision, (parseLength format).1⟩, (parseLength format).2, args)

theorem parseFlags_length (format : Str) (flags : UInt32) :
    (parseFlags format flags).2.length ≤ format.length := by
  induction format generalizing flags with
  | nil => exact le_rfl
  | cons c rest ih =>
    simp only [parseFlags, List.length_cons]
    split_ifs
    · exact (ih _).trans (Nat.le_succ _)
    · exact (ih _).trans (Nat.le_succ _)
    · exact (ih _).trans (Nat.le_succ _)
    · exact (ih _).trans (Nat.le_succ _)
    · exact le_rfl

theorem parseNumber_length (format : Str) (number : Int32) :
    (parseNumber format number).2.length ≤ format.length := by
  induction format generalizing number with
  | nil => exact le_rfl
  | cons c rest ih =>
    simp only [parseNumber, List.length_cons]
    split_ifs
    · exact (ih _).trans (Nat.le_succ _)
    · exact le_rfl

theorem parseCount_length {format : Str} {args : List UInt64} {r : Int32 × Str × List UInt64}
    (h : parseCount format args = some r) : r.2.1.length ≤ format.length := by
  rw [parseCount] at h
  split_ifs at h with hstar
  · obtain ⟨slot, -, rfl⟩ := Option.map_eq_some_iff.mp h
    simp
  · cases h
    exact parseNumber_length format 0

theorem parsePrecision_length {format : Str} {args : List UInt64}
    {r : Int32 × Str × List UInt64} (h : parsePrecision format args = some r) :
    r.2.1.length ≤ format.length := by
  rw [parsePrecision] at h
  split_ifs at h with hdot
  · exact (parseCount_length h).trans (by simp)
  · cases h
    exact le_rfl

theorem parseLength_length (format : Str) : (parseLength format).2.length ≤ format.length := by
  cases format with
  | nil => exact le_rfl
  | cons c rest =>
    simp only [parseLength]
    split_ifs <;> simp <;> omega

theorem parseSpec_length {format : Str} {args : List UInt64}
    {r : FormatSpec × Str × List UInt64} (h : parseSpec format args = some r) :
    r.2.1.length ≤ format.length := by
  simp only [parseSpec, Option.bind_eq_some_iff, Option.map_eq_some_iff] at h
  obtain ⟨width, hwidth, precision, hprecision, rfl⟩ := h
  calc (parseLength precision.2.1).2.length ≤ precision.2.1.length := parseLength_length _
    _ ≤ width.2.1.length := parsePrecision_length hprecision
    _ ≤ (parseFlags format 0).2.length := parseCount_length hwidth
    _ ≤ format.length := parseFlags_length format 0

/-! ### Formatted output -/

/-- What `vprintf_internal` does in one turn of its loop. -/
structure Piece where
  /-- The characters it prints. -/
  text : Str
  /-- What it adds to `count`. -/
  count : Int32
  /-- Where it stores `count`, and that. -/
  stored : Option (UInt64 × Int32)

/-- The `switch` over the specifier, and the arguments that are left. The value of `left` is how
many bytes of the format are behind the specifier. -/
def convert (mem : PrintfMemory) (left : ℕ) (spec : FormatSpec) (c : UInt8)
    (args : List UInt64) (count : Int32) : Option (Piece × List UInt64) :=
  let print (value : Int64) (base : ℕ) : Option (Piece × List UInt64) :=
    (formatInt value base spec.width spec.precision spec.flags (mem.behind left)).map
      fun text => (⟨text, 1, none⟩, args.tail)
  if c = chr '%' then some (⟨[chr '%'], 1, none⟩, args)
  else if c = chr 'c' then
    args.head?.map fun slot => (⟨[slot.toUInt32.toUInt8], 1, none⟩, args.tail)
  else if c = chr 's' then
    args.head?.map fun slot =>
      let s := if slot = 0 then str "(null)" else mem.string slot
      (⟨formatString s spec.width spec.precision, Int32.ofNat s.length, none⟩, args.tail)
  else if c = chr 'd' ∨ c = chr 'i' then
    args.head?.bind fun slot => print (signedArg spec.length slot) 10
  else if c = chr 'u' then
    args.head?.bind fun slot => print (unsignedArg spec.length slot).toInt64 10
  else if c = chr 'x' ∨ c = chr 'X' then
    args.head?.bind fun slot => print (unsignedArg spec.length slot).toInt64 16
  else if c = chr 'o' then
    args.head?.bind fun slot => print (unsignedArg spec.length slot).toInt64 8
  else if c = chr 'p' then
    args.head?.bind fun slot => (formatInt slot.toInt64 16 0 0 0 (mem.behind left)).map
      fun text => (⟨str "0x" ++ text, 2, none⟩, args.tail)
  else if c = chr 'n' then
    args.head?.map fun slot =>
      (⟨[], 0, if slot = 0 then none else some (slot, count)⟩, args.tail)
  else some (⟨[chr '%', c], 2, none⟩, args)

/-- One turn of the loop of `vprintf_internal`, and the rests. -/
def nextPiece (mem : PrintfMemory) (format : Str) (args : List UInt64) (count : Int32) :
    Option (Piece × Str × List UInt64) :=
  match format with
  | [] => none
  | c :: rest =>
    if c = chr '%' then
      (parseSpec rest args).bind fun (spec, rest, args) =>
        match rest with
        | [] => none
        | c :: rest => (convert mem rest.length spec c args count).map fun (piece, args) =>
          (piece, rest, args)
    else some (⟨[c], 1, none⟩, rest, args)

/-- A turn takes a part of the format. -/
theorem nextPiece_length {mem : PrintfMemory} {format : Str} {args : List UInt64}
    {count : Int32} {r : Piece × Str × List UInt64}
    (h : nextPiece mem format args count = some r) : r.2.1.length < format.length := by
  cases format with
  | nil => cases h
  | cons c rest =>
    simp only [nextPiece] at h
    split_ifs at h with hpercent
    · obtain ⟨⟨spec, left, args'⟩, hspec, h⟩ := Option.bind_eq_some_iff.mp h
      have hle : left.length ≤ rest.length := parseSpec_length hspec
      cases left with
      | nil => cases h
      | cons d left =>
        obtain ⟨⟨piece, args''⟩, -, rfl⟩ := Option.map_eq_some_iff.mp h
        simp only [List.length_cons] at hle ⊢
        omega
    · cases h
      exact Nat.lt_succ_self _

/-- What `vprintf_internal` works on, but for the format and the arguments. -/
structure PrintfState where
  /-- `buf`. -/
  buf : PrintfBuffer
  /-- `count`. -/
  count : Int32
  /-- What `n` has stored, and where. -/
  stored : List (UInt64 × Int32)

/-- A turn is carried out. -/
def PrintfState.print (st : PrintfState) (piece : Piece) : PrintfState :=
  { buf := bufferPuts st.buf piece.text
    count := st.count + piece.count
    stored := st.stored ++ piece.stored.toList }

/-- The loop of `vprintf_internal`. -/
def vprintfLoop (mem : PrintfMemory) (format : Str) (args : List UInt64) (st : PrintfState) :
    Option PrintfState :=
  if format.head? = some 0 then some st
  else
    match _ : nextPiece mem format args st.count with
    | none => none
    | some (piece, rest, args) => vprintfLoop mem rest args (st.print piece)
termination_by format.length
decreasing_by exact nextPiece_length (by assumption)

theorem vprintfLoop_end {mem : PrintfMemory} {format : Str} (h : format.head? = some 0)
    (args : List UInt64) (st : PrintfState) : vprintfLoop mem format args st = some st := by
  rw [vprintfLoop, if_pos h]

theorem vprintfLoop_next {mem : PrintfMemory} {format : Str} (h : format.head? ≠ some 0)
    (args : List UInt64) (st : PrintfState) :
    vprintfLoop mem format args st =
      (nextPiece mem format args st.count).bind fun (piece, rest, args) =>
        vprintfLoop mem rest args (st.print piece) := by
  rw [vprintfLoop, if_neg h]
  split <;> simp only [*, Option.bind_none, Option.bind_some]

/-- `vprintf_internal`. -/
def vprintfInternal (mem : PrintfMemory) (buf : PrintfBuffer) (format : Str)
    (args : List UInt64) : Option PrintfState :=
  vprintfLoop mem format args ⟨buf, 0, []⟩

/-- `printf`, to a stream to which nothing has been written. -/
def printf (mem : PrintfMemory) (format : Str) (args : List UInt64) : Option PrintfState :=
  vprintfInternal mem ⟨fun _ => none, 0, 0, some []⟩ format args

/-- The end of `snprintf`: a zero after the text. -/
def terminate (size : UInt64) (buf : PrintfBuffer) : PrintfBuffer :=
  if 0 < size ∧ buf.pos < size then
    { buf with buffer := Function.update buf.buffer buf.pos.toNat (some 0) }
  else if 0 < size then
    { buf with buffer := Function.update buf.buffer (size - 1).toNat (some 0) }
  else buf

/-- `snprintf`, with nothing stored in `str` before. -/
def snprintf (mem : PrintfMemory) (size : UInt64) (format : Str) (args : List UInt64) :
    Option PrintfState :=
  (vprintfInternal mem ⟨fun _ => none, size - 1, 0, none⟩ format args).map fun st =>
    { st with buf := terminate size st.buf }

/-! ### The pieces of a format -/

/-- What the turns do, one after the other, whatever the buffer is. -/
def pieces (mem : PrintfMemory) (format : Str) (args : List UInt64) (count : Int32) :
    Option (List Piece) :=
  if format.head? = some 0 then some []
  else
    match _ : nextPiece mem format args count with
    | none => none
    | some (piece, rest, args) =>
      (pieces mem rest args (count + piece.count)).map (piece :: ·)
termination_by format.length
decreasing_by exact nextPiece_length (by assumption)

theorem pieces_end {mem : PrintfMemory} {format : Str} (h : format.head? = some 0)
    (args : List UInt64) (count : Int32) : pieces mem format args count = some [] := by
  rw [pieces, if_pos h]

theorem pieces_next {mem : PrintfMemory} {format : Str} (h : format.head? ≠ some 0)
    (args : List UInt64) (count : Int32) :
    pieces mem format args count =
      (nextPiece mem format args count).bind fun (piece, rest, args) =>
        (pieces mem rest args (count + piece.count)).map (piece :: ·) := by
  rw [pieces, if_neg h]
  split <;> simp only [*, Option.bind_none, Option.bind_some]

/-- **The loop carries out the pieces.** -/
theorem vprintfLoop_eq (mem : PrintfMemory) (format : Str) (args : List UInt64)
    (st : PrintfState) :
    vprintfLoop mem format args st =
      (pieces mem format args st.count).map fun ps => ps.foldl PrintfState.print st := by
  fun_induction vprintfLoop mem format args st with
  | case1 format args st hend =>
    rw [pieces_end hend]
    rfl
  | case2 format args st hend hnext =>
    rw [pieces_next hend, hnext]
    rfl
  | case3 format args st hend piece rest args' hnext ih =>
    rw [pieces_next hend, hnext, ih, Option.bind_some, Option.map_map]
    rfl

/-- The text of pieces. -/
def textOf (ps : List Piece) : Str := ps.flatMap Piece.text

theorem buf_foldl_print (ps : List Piece) (st : PrintfState) :
    (ps.foldl PrintfState.print st).buf = bufferPuts st.buf (textOf ps) := by
  induction ps generalizing st with
  | nil => rfl
  | cons piece ps ih =>
    calc ((piece :: ps).foldl PrintfState.print st).buf =
        bufferPuts (bufferPuts st.buf piece.text) (textOf ps) := ih (st.print piece)
      _ = bufferPuts st.buf (textOf (piece :: ps)) := (bufferPuts_append ..).symm

end PrismaticOS.Libc
