import PrismaticOS.Libc.PrintfFields
import PrismaticOS.Libc.Snprintf

/-!
# What is returned

What `vprintf_internal` returns for a format of literal characters and conversions, and `sprintf`
of `libc/src/stdio/printf.c`.

## The model

A format is a list of items, each with its arguments. `count` goes up by one for an integer, however
many digits that has, by two for a pointer, and by the length of the whole string for `s`. So it is
compared with a sum of numbers of characters, one for each item.

## What is proved

* `formatInt_length` — how many characters `format_int` prints, and whether it does.
* `pieces_items` — the loop goes over the items.
* `returns_length_iff` — the exact condition for the number of characters to be returned, and for
  `sprintf` to return the length of its string.
* `two_digits_miscounted` — `sprintf(str, "%d", 10)` returns 1.
-/

namespace PrismaticOS.Libc

open PrismaticOS.Library

/-- `SIZE_MAX`. -/
def sizeMax : UInt64 := 0xFFFFFFFFFFFFFFFF

/-- `sprintf`, with nothing stored in `str` before. -/
def sprintf (mem : PrintfMemory) (format : Str) (args : List UInt64) : Option PrintfState :=
  (vprintfInternal mem ⟨fun _ => none, sizeMax, 0, none⟩ format args).map fun st =>
    if st.buf.pos < st.buf.size then
      { st with
        buf := { st.buf with
          buffer := Function.update st.buf.buffer st.buf.pos.toNat (some 0) } }
    else st

/-! ### Formats -/

/-- A conversion, with its argument. -/
inductive Conversion where
  /-- `%%`. -/
  | percent
  /-- `%c`. -/
  | char (slot : UInt64)
  /-- `%s`. -/
  | string (slot : UInt64)
  /-- `%d`, `%i`, `%u`, `%o`, `%x` and `%X`. -/
  | integer (conv : IntConversion) (slot : UInt64)
  /-- `%p`. -/
  | pointer (slot : UInt64)

/-- Its specifier. -/
def Conversion.specifier : Conversion → UInt8
  | .percent => chr '%'
  | .char _ => chr 'c'
  | .string _ => chr 's'
  | .integer conv _ => conv.specifier
  | .pointer _ => chr 'p'

/-- Its argument. -/
def Conversion.args : Conversion → List UInt64
  | .percent => []
  | .char slot | .string slot | .integer _ slot | .pointer slot => [slot]

/-- A part of a format. -/
inductive FormatItem where
  /-- A character that is printed as it is. -/
  | literal (c : UInt8) (h : c ≠ chr '%' ∧ c ≠ 0)
  /-- A conversion with flags, a width, a precision and a length modifier. -/
  | directive (d : Directive) (conv : Conversion)

/-- How it is written. -/
def FormatItem.chars : FormatItem → Str
  | .literal c _ => [c]
  | .directive d conv => chr '%' :: (d.chars ++ [conv.specifier])

/-- Its arguments. -/
def FormatItem.args : FormatItem → List UInt64
  | .literal _ _ => []
  | .directive d conv => d.args ++ conv.args

/-- The format of items, with its zero and what is behind that. -/
def formatOf (items : List FormatItem) (after : Str) : Str := items.flatMap FormatItem.chars ++ 0 :: after

/-- The arguments of items. -/
def argsOf (items : List FormatItem) : List UInt64 := items.flatMap FormatItem.args

/-- `vprintf_internal` hands a text to `buffer_putc`, and returns its length. -/
def ReturnsLength (mem : PrintfMemory) (format : Str) (args : List UInt64) : Prop :=
  ∃ text : Str, ∀ buf, ∃ st, vprintfInternal mem buf format args = some st ∧
    st.buf = bufferPuts buf text ∧ st.count.toInt = text.length

/-- `sprintf` returns the index of the zero that it stores. -/
def SprintfLength (mem : PrintfMemory) (format : Str) (args : List UInt64) : Prop :=
  ∃ st, sprintf mem format args = some st ∧ st.count.toInt = st.buf.pos.toNat

/-! ### How many characters are printed -/

/-- The sign, zeros and digits of an integer. -/
def cellCount (base : ℕ) (value : ℤ) (precision : Int32) (flags : UInt32) : ℕ :=
  max precision.toInt.toNat ((intSign base value flags).length + (intDigits base value).length)

/-- The characters behind the buffer that `-` prints for the width. -/
def passedCount (width : Int32) (flags : UInt32) (cells : ℕ) : ℕ :=
  if flags &&& 4 ≠ 0 then width.toInt.toNat - cells - cells else 0

/-- The characters in front of them and in the buffer, and those. -/
def columnCount (width : Int32) (flags : UInt32) (cells : ℕ) : ℕ :=
  if flags &&& 4 ≠ 0 then max cells (width.toInt.toNat - cells) else max cells width.toInt.toNat

/-- What `format_int` writes is in its buffer, and it comes to a zero. -/
def IntDefined (width : Int32) (flags : UInt32) (cells : ℕ) (behind : Str) : Prop :=
  cells ≤ 64 ∧ 0 ∈ behind.drop (passedCount width flags cells)

/-- How many characters it prints. -/
def intPrinted (width : Int32) (flags : UInt32) (cells : ℕ) (behind : Str) : ℕ :=
  columnCount width flags cells +
    ((behind.drop (passedCount width flags cells)).takeWhile (· != 0)).length

/-- How many characters `format_string` prints. -/
def stringPrinted (d : Directive) (s : Str) : ℕ :=
  ((d.width.value - cutLength d s).bmod (2 ^ 32)).toNat + (cutLength d s).toNat

namespace Conversion

/-- The conversion comes to an end. -/
def Defined (mem : PrintfMemory) (left : ℕ) (d : Directive) : Conversion → Prop
  | .percent | .char _ | .string _ => True
  | .integer conv slot =>
    IntDefined d.spec.width d.spec.flags (cellCount conv.base (readValue conv d.length slot).toInt
      d.spec.precision d.spec.flags) (mem.behind left)
  | .pointer slot => IntDefined 0 0 (cellCount 16 slot.toInt64.toInt 0 0) (mem.behind left)

/-- How many characters it prints. -/
def printed (mem : PrintfMemory) (left : ℕ) (d : Directive) : Conversion → ℕ
  | .percent | .char _ => 1
  | .string slot => stringPrinted d (stringAt mem slot)
  | .integer conv slot =>
    intPrinted d.spec.width d.spec.flags (cellCount conv.base (readValue conv d.length slot).toInt
      d.spec.precision d.spec.flags) (mem.behind left)
  | .pointer slot => 2 + intPrinted 0 0 (cellCount 16 slot.toInt64.toInt 0 0) (mem.behind left)

/-- What `count` goes up by. -/
def counted (mem : PrintfMemory) : Conversion → ℕ
  | .percent | .char _ | .integer _ _ => 1
  | .string slot => (stringAt mem slot).length
  | .pointer _ => 2

end Conversion

namespace FormatItem

/-- The item comes to an end. -/
def Defined (mem : PrintfMemory) (left : ℕ) : FormatItem → Prop
  | .literal _ _ => True
  | .directive d conv => conv.Defined mem left d

/-- How many characters it prints. -/
def printed (mem : PrintfMemory) (left : ℕ) : FormatItem → ℕ
  | .literal _ _ => 1
  | .directive d conv => conv.printed mem left d

/-- What `count` goes up by. -/
def counted (mem : PrintfMemory) : FormatItem → ℕ
  | .literal _ _ => 1
  | .directive _ conv => conv.counted mem

end FormatItem

/-- All items come to an end. -/
def AllDefined (mem : PrintfMemory) (after : Str) : List FormatItem → Prop
  | [] => True
  | item :: items => item.Defined mem (formatOf items after).length ∧ AllDefined mem after items

/-- How many characters they print. -/
def allPrinted (mem : PrintfMemory) (after : Str) : List FormatItem → ℕ
  | [] => 0
  | item :: items => item.printed mem (formatOf items after).length + allPrinted mem after items

/-- What `count` is after them, as a number. -/
def allCounted (mem : PrintfMemory) (items : List FormatItem) : ℕ :=
  (items.map (FormatItem.counted mem)).sum

/-- The condition: all items come to an end, and as many characters are printed as are counted, and
no more than an `int` can be. -/
structure CountsRight (mem : PrintfMemory) (after : Str) (items : List FormatItem) : Prop where
  /-- There is a zero behind the buffer wherever `format_int` looks for one. -/
  defined : AllDefined mem after items
  /-- The number is an `int`. -/
  printed_lt : allPrinted mem after items < 2 ^ 31
  /-- What the integers, strings and pointers print more and less than is counted adds up to nothing,
  as an `int`. -/
  counted : allPrinted mem after items ≡ allCounted mem items [MOD 2 ^ 32]

section
variable {mem : PrintfMemory} {after rest text : Str} {items : List FormatItem} {args : List UInt64}
  {count : Int32}

/-! ### The length of a conversion -/

theorem length_intCells (value : Int64) {base : ℕ} (hb : 1 < base) (precision : Int32)
    (flags : UInt32) :
    (intCells value base precision flags).length = cellCount base value.toInt precision flags := by
  rw [intCells_parts value hb, length_padLeft, List.length_append, cellCount]

theorem passedCells_eq (width : Int32) (flags : UInt32) (cells : Str) :
    passedCells width flags cells = passedCount width flags cells.length := by
  unfold passedCells passedCount
  split_ifs <;> omega

theorem outputFrom_some {n : ℕ} {behind : Str} (h : 0 ∈ behind.drop n) :
    ∃ text, outputFrom n behind = some text ∧
      text.length = n + ((behind.drop n).takeWhile (· != 0)).length := by
  have hlt : 0 < (behind.drop n).length := List.length_pos_of_mem h
  rw [List.length_drop] at hlt
  refine ⟨_, by rw [outputFrom, untilZero, if_pos h, Option.map_some], ?_⟩
  rw [List.length_append, List.length_take, Nat.min_eq_left (by omega)]

theorem outputFrom_eq_none {n : ℕ} {behind : Str} (h : 0 ∉ behind.drop n) :
    outputFrom n behind = none := by
  rw [outputFrom, untilZero, if_neg h, Option.map_none]

theorem length_leadingSpaces (width : Int32) (flags : UInt32) (cells : Str) :
    (leadingSpaces width flags cells).length + cells.length +
      passedCount width flags cells.length = columnCount width flags cells.length := by
  unfold leadingSpaces passedCount columnCount
  split_ifs
  · rw [List.length_nil]
    omega
  · rw [List.length_replicate]
    omega

/-- **How many characters `format_int` prints.** -/
theorem formatInt_length (value : Int64) {base : ℕ} (hb : 1 < base) (hle : base ≤ 16)
    {width precision : Int32} {flags : UInt32} {behind : Str}
    (h : IntDefined width flags (cellCount base value.toInt precision flags) behind) :
    ∃ text, formatInt value base width precision flags behind = some text ∧
      text.length = intPrinted width flags (cellCount base value.toInt precision flags) behind := by
  have hlen := length_intCells value hb precision flags
  rw [← hlen, IntDefined, ← passedCells_eq] at h
  obtain ⟨text, htext, hlength⟩ := outputFrom_some h.2
  refine ⟨_, by rw [formatInt_eq value hb hle _ _ _ _ h.1, htext, Option.map_some], ?_⟩
  rw [List.length_append, List.length_append, hlength, passedCells_eq, intPrinted, ← hlen,
    ← length_leadingSpaces]
  omega

/-- Where it prints nothing, as it is undefined. -/
theorem formatInt_eq_none (value : Int64) {base : ℕ} (hb : 1 < base) (hle : base ≤ 16)
    {width precision : Int32} {flags : UInt32} {behind : Str}
    (h : ¬ IntDefined width flags (cellCount base value.toInt precision flags) behind) :
    formatInt value base width precision flags behind = none := by
  have hlen := length_intCells value hb precision flags
  rw [← hlen, IntDefined, ← passedCells_eq] at h
  by_cases hfits : (intCells value base precision flags).length ≤ 64
  · have hzero : 0 ∉ behind.drop (passedCells width flags (intCells value base precision flags)) :=
      fun hmem => h ⟨hfits, hmem⟩
    rw [formatInt_eq value hb hle _ _ _ _ hfits, outputFrom_eq_none hzero, Option.map_none]
  · exact formatInt_none (Nat.not_le.mp hfits)

theorem formatString_length (d : Directive) (s : Str) :
    (formatString s d.spec.width d.spec.precision).length = stringPrinted d s := by
  have hle := cutLength_toNat_le d s
  rw [formatString_cut, List.length_append, List.length_replicate, List.length_take,
    Nat.min_eq_left hle, stringPrinted]

/-! ### The items -/

theorem IntConversion.specifier_mem (conv : IntConversion) : conv.specifier ∈ specifiers := by
  cases conv <;> decide

theorem Conversion.specifier_mem (conv : Conversion) : conv.specifier ∈ specifiers := by
  have hchars : chr '%' ∈ specifiers ∧ chr 'c' ∈ specifiers ∧ chr 's' ∈ specifiers ∧
      chr 'p' ∈ specifiers := by decide
  cases conv with
  | percent => exact hchars.1
  | char slot => exact hchars.2.1
  | string slot => exact hchars.2.2.1
  | integer conv slot => exact conv.specifier_mem
  | pointer slot => exact hchars.2.2.2

/-- What a conversion does. -/
theorem convert_conversion (mem : PrintfMemory) (left : ℕ) (d : Directive) (conv : Conversion)
    (args : List UInt64) (count : Int32) :
    (conv.Defined mem left d → ∃ piece,
        convert mem left d.spec conv.specifier (conv.args ++ args) count = some (piece, args) ∧
          piece.text.length = conv.printed mem left d ∧
          piece.count = Int32.ofNat (conv.counted mem)) ∧
      (¬ conv.Defined mem left d →
        convert mem left d.spec conv.specifier (conv.args ++ args) count = none) := by
  cases conv with
  | percent => exact ⟨fun _ => ⟨_, rfl, rfl, rfl⟩, fun h => absurd trivial h⟩
  | char slot => exact ⟨fun _ => ⟨_, rfl, rfl, rfl⟩, fun h => absurd trivial h⟩
  | string slot =>
    exact ⟨fun _ => ⟨_, rfl, formatString_length d _, rfl⟩, fun h => absurd trivial h⟩
  | integer conv slot =>
    have hconvert : convert mem left d.spec conv.specifier (slot :: args) count =
        (formatInt (readValue conv d.length slot) conv.base d.spec.width d.spec.precision
          d.spec.flags (mem.behind left)).map fun text => (⟨text, 1, none⟩, args) :=
      convert_integer mem left d.spec conv slot args count
    refine ⟨fun h => ?_, fun h => ?_⟩
    · obtain ⟨text, htext, hlength⟩ := formatInt_length _ conv.one_lt_base conv.base_le h
      exact ⟨⟨text, 1, none⟩, hconvert.trans (by rw [htext]; rfl), hlength, rfl⟩
    · rw [formatInt_eq_none _ conv.one_lt_base conv.base_le h, Option.map_none] at hconvert
      exact hconvert
  | pointer slot =>
    have hconvert : convert mem left d.spec (chr 'p') (slot :: args) count =
        (formatInt slot.toInt64 16 0 0 0 (mem.behind left)).map
          fun text => (⟨str "0x" ++ text, 2, none⟩, args) := rfl
    refine ⟨fun h => ?_, fun h => ?_⟩
    · obtain ⟨text, htext, hlength⟩ := formatInt_length slot.toInt64 (by decide) (by decide) h
      refine ⟨⟨str "0x" ++ text, 2, none⟩, hconvert.trans (by rw [htext]; rfl), ?_, rfl⟩
      rw [Conversion.printed, ← hlength, List.length_append]
      rfl
    · rw [formatInt_eq_none slot.toInt64 (by decide) (by decide) h, Option.map_none] at hconvert
      exact hconvert

/-- **A turn of the loop** for an item. -/
theorem nextPiece_item (mem : PrintfMemory) (item : FormatItem) (rest : Str) (args : List UInt64)
    (count : Int32) :
    (item.Defined mem rest.length → ∃ piece,
        nextPiece mem (item.chars ++ rest) (item.args ++ args) count = some (piece, rest, args) ∧
          piece.text.length = item.printed mem rest.length ∧
          piece.count = Int32.ofNat (item.counted mem)) ∧
      (¬ item.Defined mem rest.length →
        nextPiece mem (item.chars ++ rest) (item.args ++ args) count = none) := by
  cases item with
  | literal c h =>
    exact ⟨fun _ => ⟨⟨[c], 1, none⟩, if_neg h.1, rfl, rfl⟩, fun h => absurd trivial h⟩
  | directive d conv =>
    have hturn := nextPiece_directive mem d conv.specifier_mem rest (conv.args ++ args) count
    have hchars : (FormatItem.directive d conv).chars ++ rest =
        chr '%' :: (d.chars ++ conv.specifier :: rest) := by
      rw [FormatItem.chars, List.cons_append, List.append_assoc, List.singleton_append]
    have hargs : (FormatItem.directive d conv).args ++ args = d.args ++ (conv.args ++ args) :=
      List.append_assoc _ _ _
    obtain ⟨hdefined, hnone⟩ := convert_conversion mem rest.length d conv args count
    rw [hchars, hargs, hturn]
    refine ⟨fun h => ?_, fun h => ?_⟩
    · obtain ⟨piece, hpiece, hlength, hcount⟩ := hdefined h
      exact ⟨piece, by rw [hpiece, Option.map_some], hlength, hcount⟩
    · rw [hnone h, Option.map_none]

/-- A format does not end at an item. -/
theorem head_item (item : FormatItem) (rest : Str) : (item.chars ++ rest).head? ≠ some 0 := by
  cases item with
  | literal c h => exact fun heq => h.2 (Option.some.inj heq)
  | directive d conv => exact fun heq => absurd (Option.some.inj heq) (by decide)

theorem formatOf_cons (item : FormatItem) (items : List FormatItem) (after : Str) :
    formatOf (item :: items) after = item.chars ++ formatOf items after := by
  rw [formatOf, formatOf, List.flatMap_cons, List.append_assoc]

theorem argsOf_cons (item : FormatItem) (items : List FormatItem) :
    argsOf (item :: items) = item.args ++ argsOf items := List.flatMap_cons

/-- **The loop goes over the items.** -/
theorem pieces_items (mem : PrintfMemory) (after : Str) (items : List FormatItem) (count : Int32) :
    (AllDefined mem after items → ∃ ps,
        pieces mem (formatOf items after) (argsOf items) count = some ps ∧
          (textOf ps).length = allPrinted mem after items ∧
          ∀ st, (ps.foldl PrintfState.print st).count =
            st.count + Int32.ofNat (allCounted mem items)) ∧
      (¬ AllDefined mem after items →
        pieces mem (formatOf items after) (argsOf items) count = none) := by
  induction items generalizing count with
  | nil =>
    have hend : (formatOf [] after).head? = some 0 := rfl
    refine ⟨fun _ => ⟨[], pieces_end hend _ _, rfl, fun st => ?_⟩, fun h => absurd trivial h⟩
    exact (Int32.add_zero _).symm
  | cons item items ih =>
    have hhead := head_item item (formatOf items after)
    obtain ⟨hdefined, hnone⟩ :=
      nextPiece_item mem item (formatOf items after) (argsOf items) count
    rw [formatOf_cons, argsOf_cons, pieces_next hhead]
    by_cases hitem : item.Defined mem (formatOf items after).length
    · obtain ⟨piece, hpiece, hlength, hcount⟩ := hdefined hitem
      obtain ⟨hsome, hrest⟩ := ih (count + piece.count)
      rw [hpiece, Option.bind_some]
      dsimp only
      refine ⟨fun h => ?_, fun h => ?_⟩
      · obtain ⟨ps, hps, htext, hcounted⟩ := hsome h.2
        refine ⟨piece :: ps, by rw [hps, Option.map_some], ?_, fun st => ?_⟩
        · rw [textOf, List.flatMap_cons, List.length_append, hlength, allPrinted, ← htext]
          rfl
        · have hprint : (st.print piece).count = st.count + piece.count := rfl
          rw [List.foldl_cons, hcounted, hprint, hcount, Int32.add_assoc, ← Int32.ofNat_add]
          rfl
      · rw [hrest fun hall => h ⟨hitem, hall⟩, Option.map_none]
    · rw [hnone hitem, Option.bind_none]
      exact ⟨fun h => absurd h.1 hitem, fun _ => rfl⟩

/-! ### What is returned -/

/-- When a number is what an `int` is after as many steps. -/
theorem toInt_ofNat_eq_iff (n m : ℕ) :
    (Int32.ofNat n).toInt = m ↔ m < 2 ^ 31 ∧ m ≡ n [MOD 2 ^ 32] := by
  have hint : (Int32.ofNat n).toInt = (n : ℤ).bmod (2 ^ 32) := Int32.toInt_ofNat'
  rw [hint]
  constructor
  · intro h
    have hlt : (n : ℤ).bmod (2 ^ 32) < 2 ^ 31 := Int.bmod_lt (by decide)
    refine ⟨by omega, Int.natCast_modEq_iff.mp ?_⟩
    rw [← h]
    exact Int.bmod_emod
  · rintro ⟨hlt, hmod⟩
    have hsame : (n : ℤ) % (2 ^ 32 : ℕ) = (m : ℤ) % (2 ^ 32 : ℕ) := (Int.natCast_modEq_iff.mpr hmod).symm
    rw [← Int.emod_bmod, hsame, Int.emod_bmod]
    exact Int.bmod_eq_of_le (by omega) (by omega)

/-- The loop hands the text of the pieces to `buffer_putc`. -/
theorem vprintfInternal_pieces {format : Str} {ps : List Piece}
    (h : pieces mem format args 0 = some ps) (buf : PrintfBuffer) :
    vprintfInternal mem buf format args = some (ps.foldl PrintfState.print ⟨buf, 0, []⟩) := by
  rw [vprintfInternal, vprintfLoop_eq, h, Option.map_some]

/-- Where an item does not come to an end, the call has no outcome. -/
theorem vprintfInternal_eq_none (h : ¬ AllDefined mem after items) (buf : PrintfBuffer) :
    vprintfInternal mem buf (formatOf items after) (argsOf items) = none := by
  rw [vprintfInternal, vprintfLoop_eq, (pieces_items mem after items 0).2 h, Option.map_none]

/-- What is counted for the items is the length of what is printed. -/
theorem countsRight_iff {ps : List Piece} (buf : PrintfBuffer) (hdefined : AllDefined mem after items)
    (hlength : (textOf ps).length = allPrinted mem after items)
    (hcount : ∀ st, (ps.foldl PrintfState.print st).count =
      st.count + Int32.ofNat (allCounted mem items)) :
    (ps.foldl PrintfState.print ⟨buf, 0, []⟩).count.toInt = (textOf ps).length ↔
      CountsRight mem after items := by
  rw [hcount, Int32.zero_add, toInt_ofNat_eq_iff, hlength]
  exact ⟨fun h => ⟨hdefined, h.1, h.2⟩, fun h => ⟨h.printed_lt, h.counted⟩⟩

/-- `vprintf_internal` returns the number of characters. -/
theorem returns_iff (mem : PrintfMemory) (after : Str) (items : List FormatItem) :
    ReturnsLength mem (formatOf items after) (argsOf items) ↔ CountsRight mem after items := by
  by_cases hdefined : AllDefined mem after items
  · obtain ⟨ps, hps, hlength, hcount⟩ := (pieces_items mem after items 0).1 hdefined
    constructor
    · rintro ⟨text, hreturns⟩
      obtain ⟨st, hst, hbuf, hlen⟩ := hreturns ⟨fun _ => none, 0, 0, some []⟩
      rw [vprintfInternal_pieces hps, Option.some_inj] at hst
      subst hst
      -- the stream has the text of the pieces
      have htext : textOf ps = text := by
        have hstream := congrArg PrintfBuffer.stream hbuf
        rw [buf_foldl_print, bufferPuts_stream rfl, bufferPuts_stream rfl] at hstream
        exact Option.some.inj hstream
      rw [← htext] at hlen
      exact (countsRight_iff _ hdefined hlength hcount).mp hlen
    · intro hright
      refine ⟨textOf ps, fun buf => ⟨_, vprintfInternal_pieces hps buf, buf_foldl_print ps _, ?_⟩⟩
      exact (countsRight_iff _ hdefined hlength hcount).mpr hright
  · refine iff_of_false ?_ fun hright => hdefined hright.defined
    rintro ⟨text, hreturns⟩
    obtain ⟨st, hst, -⟩ := hreturns ⟨fun _ => none, 0, 0, some []⟩
    rw [vprintfInternal_eq_none hdefined] at hst
    cases hst

/-- `sprintf` changes neither `count` nor `pos` after the loop. -/
theorem sprintf_pieces {format : Str} {ps : List Piece} (h : pieces mem format args 0 = some ps) :
    ∃ st, sprintf mem format args = some st ∧
      st.count = (ps.foldl PrintfState.print ⟨⟨fun _ => none, sizeMax, 0, none⟩, 0, []⟩).count ∧
      st.buf.pos.toNat = min (2 ^ 64 - 1) (textOf ps).length := by
  refine ⟨_, by rw [sprintf, vprintfInternal_pieces h, Option.map_some], ?_⟩
  have hbuf := boundedBy_puts (boundedBy_nil sizeMax) (textOf ps)
  have hsize : sizeMax.toNat = 2 ^ 64 - 1 := rfl
  have hpos := hbuf.pos_eq
  rw [List.nil_append, List.length_take, hsize, ← buf_foldl_print ps ⟨_, 0, []⟩] at hpos
  split_ifs
  · exact ⟨rfl, hpos⟩
  · exact ⟨rfl, hpos⟩

/-- `sprintf` returns the length of its string. -/
theorem sprintf_iff (mem : PrintfMemory) (after : Str) (items : List FormatItem) :
    SprintfLength mem (formatOf items after) (argsOf items) ↔ CountsRight mem after items := by
  by_cases hdefined : AllDefined mem after items
  · obtain ⟨ps, hps, hlength, hcount⟩ := (pieces_items mem after items 0).1 hdefined
    obtain ⟨st, hst, hsame, hpos⟩ := sprintf_pieces hps
    have hlt : st.count.toInt < 2 ^ 31 := st.count.toInt_lt
    rw [← countsRight_iff ⟨fun _ => none, sizeMax, 0, none⟩ hdefined hlength hcount, ← hsame]
    constructor
    · rintro ⟨st', hst', hlen⟩
      obtain rfl := Option.some.inj (hst.symm.trans hst')
      rw [hpos] at hlen
      omega
    · intro hlen
      exact ⟨st, hst, by rw [hpos]; omega⟩
  · refine iff_of_false ?_ fun hright => hdefined hright.defined
    rintro ⟨st, hst, -⟩
    rw [sprintf, vprintfInternal_eq_none hdefined] at hst
    cases hst

/-- **What is returned**: the number of characters, and by `sprintf` the length of its string, exactly
if as many characters are counted for the items as are printed. -/
theorem returns_length_iff (mem : PrintfMemory) (after : Str) (items : List FormatItem) :
    (ReturnsLength mem (formatOf items after) (argsOf items) ↔ CountsRight mem after items) ∧
      (SprintfLength mem (formatOf items after) (argsOf items) ↔ CountsRight mem after items) :=
  ⟨returns_iff mem after items, sprintf_iff mem after items⟩

/-- `%d`. -/
def plainDirective : Directive where
  flags := []
  width := .number []
  precision := none
  length := .none
  width_head := nofun
  width_lt := by decide
  precision_lt := no_precision_lt

/-- **`sprintf(str, "%d", 10)` returns 1**, also where there is a zero behind the buffer. -/
theorem two_digits_miscounted : ¬ ∀ (mem : PrintfMemory) (after : Str) (items : List FormatItem),
    AllDefined mem after items →
      ReturnsLength mem (formatOf items after) (argsOf items) ∧
        SprintfLength mem (formatOf items after) (argsOf items) := by
  intro hall
  have hdigits : intDigits 10 10 = [chr '1', chr '0'] := by
    simp [intDigits, numeral, numeralDigits]
    decide
  have hcells : cellCount 10 10 (-1) 0 = 2 := by
    rw [cellCount, hdigits]
    decide
  have hcall : IntDefined 0 0 (cellCount 10 10 (-1) 0) [0] ∧
      intPrinted 0 0 (cellCount 10 10 (-1) 0) [0] = 2 := by
    rw [hcells]
    exact ⟨by unfold IntDefined; decide, by decide⟩
  have hdefined : AllDefined ⟨fun _ => [], fun _ => [0]⟩ []
      [.directive plainDirective (.integer .d 10)] := ⟨hcall.1, trivial⟩
  have hright := (returns_iff _ _ _).mp (hall _ _ _ hdefined).1
  have hprinted : allPrinted ⟨fun _ => [], fun _ => [0]⟩ []
      [.directive plainDirective (.integer .d 10)] = 2 := hcall.2
  have hcounted := hright.counted
  rw [hprinted] at hcounted
  exact absurd hcounted (by decide)

end

end PrismaticOS.Libc
