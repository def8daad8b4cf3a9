import PrismaticOS.Libc.Printf

/-!
# Bounded formatting

`snprintf` of `libc/src/stdio/printf.c` on an array of any size.

## The model

`BoundedBy` says what an array has when a text has been printed into it, and
`SnprintfCorrect` what `snprintf` is for: it is compared with `printf` on a stream.

## What is proved

* `boundedBy_putc` and `boundedBy_puts` — a character and a text more.
* `stream_printf` — what `printf` prints.
* `snprintf_correct_iff` — `snprintf` does what it is for if and only if the format can be
  printed at all and the size is not zero or the text is empty.
* `size_zero` — it stores into an array of no bytes.
-/

namespace PrismaticOS.Libc

/-! ### What it is for -/

/-- `snprintf` stores below `size` only, and if that is not zero, what `printf` prints is in the
array as far as it fits, and a zero after it. -/
def SnprintfCorrect (mem : PrintfMemory) (size : UInt64) (format : Str) (args : List UInt64) :
    Prop :=
  ∃ (st full : PrintfState) (text : Str),
    snprintf mem size format args = some st ∧ printf mem format args = some full ∧
    full.buf.stream = some text ∧
    (∀ i, st.buf.buffer i ≠ none → i < size.toNat) ∧
    (size ≠ 0 → (∀ i < min (size.toNat - 1) text.length, st.buf.buffer i = text[i]?) ∧
      st.buf.buffer (min (size.toNat - 1) text.length) = some 0)

/-! ### The array -/

/-- An array that nothing was stored in has got a text, as far as it goes. -/
structure BoundedBy (size : UInt64) (text : Str) (buf : PrintfBuffer) : Prop where
  /-- It is not a stream. -/
  array : buf.stream = none
  /-- Its size. -/
  size_eq : buf.size = size
  /-- The text ends where it goes on, or is cut off. -/
  pos_eq : buf.pos.toNat = (text.take size.toNat).length
  /-- What it has. -/
  buffer_eq : ∀ i, buf.buffer i = (text.take size.toNat)[i]?

theorem boundedBy_nil (size : UInt64) : BoundedBy size [] ⟨fun _ => none, size, 0, none⟩ :=
  ⟨rfl, rfl, by rw [List.take_nil]; rfl, fun i => by simp⟩

/-- A character is stored behind a list. -/
theorem update_getElem? {f : ℕ → Option UInt8} {text : Str} (h : ∀ i, f i = text[i]?) (c : UInt8)
    (i : ℕ) : Function.update f text.length (some c) i = (text ++ [c])[i]? := by
  rcases lt_trichotomy i text.length with hlt | rfl | hgt
  · rw [Function.update_of_ne hlt.ne, h, List.getElem?_append_left hlt]
  · rw [Function.update_self, List.getElem?_concat_length]
  · rw [Function.update_of_ne hgt.ne', h, List.getElem?_eq_none hgt.le,
      List.getElem?_eq_none (by simpa using hgt)]

/-- One more character. -/
theorem boundedBy_putc {size : UInt64} {text : Str} {buf : PrintfBuffer}
    (h : BoundedBy size text buf) (c : UInt8) :
    BoundedBy size (text ++ [c]) (bufferPutc buf c) := by
  obtain ⟨harray, hsize, hpos, hbuffer⟩ := h
  have hlt : buf.pos < buf.size ↔ text.length < size.toNat := by
    rw [UInt64.lt_iff_toNat_lt, hpos, hsize, List.length_take]
    omega
  by_cases hroom : buf.pos < buf.size
  · -- the text has not been cut off so far
    have hlen := hlt.mp hroom
    have htake : text.take size.toNat = text := List.take_of_length_le hlen.le
    have htake' : (text ++ [c]).take size.toNat = text ++ [c] :=
      List.take_of_length_le (by simpa using hlen)
    have hputc : bufferPutc buf c =
        { buf with
          buffer := Function.update buf.buffer buf.pos.toNat (some c)
          pos := buf.pos + 1 } := by
      simp only [bufferPutc, harray, if_pos hroom]
    have hsmall := size.toNat_lt
    rw [htake] at hpos hbuffer
    rw [hputc]
    refine ⟨harray, hsize, ?_, fun i => ?_⟩
    · rw [htake', List.length_append, List.length_singleton, UInt64.toNat_add, hpos]
      exact Nat.mod_eq_of_lt (by rw [UInt64.toNat_one]; omega)
    · rw [htake', hpos]
      exact update_getElem? hbuffer c i
  · have htake : (text ++ [c]).take size.toNat = text.take size.toNat :=
      List.take_append_of_le_length (Nat.not_lt.mp fun h => hroom (hlt.mpr h))
    have hputc : bufferPutc buf c = buf := by
      simp only [bufferPutc, harray, if_neg hroom]
    rw [hputc]
    exact ⟨harray, hsize, by rw [htake, hpos], fun i => by rw [htake, hbuffer]⟩

/-- A text more. -/
theorem boundedBy_puts {size : UInt64} {text : Str} {buf : PrintfBuffer}
    (h : BoundedBy size text buf) (more : Str) :
    BoundedBy size (text ++ more) (bufferPuts buf more) := by
  induction more generalizing text buf with
  | nil => rwa [List.append_nil]
  | cons c more ih =>
    rw [List.append_cons]
    exact ih (boundedBy_putc h c)

theorem toNat_sub_one {size : UInt64} (h : size ≠ 0) : (size - 1).toNat = size.toNat - 1 := by
  have hpos : 0 < size.toNat := Nat.pos_of_ne_zero fun h₀ => h (UInt64.toNat_inj.mp h₀)
  exact UInt64.toNat_sub_of_le size 1 (UInt64.le_iff_toNat_le.mpr hpos)

/-- The zero after the text. -/
theorem boundedBy_terminate {size : UInt64} (hsize : size ≠ 0) {text : Str} {buf : PrintfBuffer}
    (h : BoundedBy (size - 1) text buf) (i : ℕ) :
    (terminate size buf).buffer i = (text.take (size.toNat - 1) ++ [0])[i]? := by
  obtain ⟨-, -, hpos, hbuffer⟩ := h
  have hsub := toNat_sub_one hsize
  have hlt : 0 < size.toNat := Nat.pos_of_ne_zero fun h₀ => hsize (UInt64.toNat_inj.mp h₀)
  have hroom : 0 < size ∧ buf.pos < size := by
    rw [UInt64.lt_iff_toNat_lt, UInt64.lt_iff_toNat_lt, hpos, List.length_take, UInt64.toNat_zero]
    omega
  rw [terminate, if_pos hroom, ← hsub]
  dsimp only
  rw [hpos]
  exact update_getElem? hbuffer 0 i

/-! ### Bounded formatting -/

/-- What `printf` prints. -/
theorem stream_printf {mem : PrintfMemory} {format : Str} {args : List UInt64}
    {ps : List Piece} (h : pieces mem format args 0 = some ps) :
    ∃ full, printf mem format args = some full ∧ full.buf.stream = some (textOf ps) := by
  refine ⟨_, by rw [printf, vprintfInternal, vprintfLoop_eq, h, Option.map_some], ?_⟩
  rw [buf_foldl_print, bufferPuts_stream rfl, List.nil_append]

/-- What `snprintf` does. -/
theorem array_snprintf {mem : PrintfMemory} {format : Str} {args : List UInt64}
    {ps : List Piece} (h : pieces mem format args 0 = some ps) (size : UInt64) :
    ∃ st buf, snprintf mem size format args = some st ∧ st.buf = terminate size buf ∧
      BoundedBy (size - 1) (textOf ps) buf := by
  refine ⟨_, _, by rw [snprintf, vprintfInternal, vprintfLoop_eq, h]; rfl, rfl, ?_⟩
  rw [buf_foldl_print]
  exact boundedBy_puts (boundedBy_nil (size - 1)) (textOf ps)

/-- There is no zero in an array of no bytes. -/
theorem terminate_zero (buf : PrintfBuffer) : terminate 0 buf = buf := by
  have hsize : ¬ (0 : UInt64) < 0 := by decide
  rw [terminate, if_neg (fun h => hsize h.1), if_neg hsize]

/-- With size zero a text goes into the array as if that were endless. -/
theorem BoundedBy.nothing_stored_iff {text : Str} {buf : PrintfBuffer}
    (h : BoundedBy (0 - 1) text buf) : (∀ i, buf.buffer i = none) ↔ text = [] := by
  have hpos : 0 < (0 - 1 : UInt64).toNat := by decide
  constructor
  · intro hnone
    have hzero := hnone 0
    rwa [h.buffer_eq, List.getElem?_take_of_lt hpos, ← List.head?_eq_getElem?,
      List.head?_eq_none_iff] at hzero
  · rintro rfl i
    rw [h.buffer_eq, List.take_nil, List.getElem?_nil]

theorem textOf_eq_nil_iff (ps : List Piece) : textOf ps = [] ↔ ∀ p ∈ ps, p.text = [] :=
  List.flatMap_eq_nil_iff

/-- **Bounded formatting** is right exactly if the format can be printed and there is an array
or no text. -/
theorem snprintf_correct_iff (mem : PrintfMemory) (size : UInt64) (format : Str)
    (args : List UInt64) :
    SnprintfCorrect mem size format args ↔
      ∃ ps, pieces mem format args 0 = some ps ∧ (size ≠ 0 ∨ ∀ p ∈ ps, p.text = []) := by
  constructor
  · rintro ⟨st, full, text, hst, hfull, -, hbelow, -⟩
    rw [printf, vprintfInternal, vprintfLoop_eq] at hfull
    obtain ⟨ps, hps, -⟩ := Option.map_eq_some_iff.mp hfull
    refine ⟨ps, hps, or_iff_not_imp_left.mpr fun hsize => ?_⟩
    rw [ne_eq, not_not] at hsize
    subst hsize
    obtain ⟨st', buf, hst', hbuf, hbounded⟩ := array_snprintf hps 0
    rw [terminate_zero] at hbuf
    rw [hst', Option.some_inj] at hst
    refine (textOf_eq_nil_iff ps).mp (hbounded.nothing_stored_iff.mp fun i => ?_)
    -- there is no index below zero
    by_contra hstored
    rw [← hbuf, hst] at hstored
    exact absurd (hbelow i hstored) (Nat.not_lt_zero i)
  · rintro ⟨ps, hps, hok⟩
    obtain ⟨full, hfull, htext⟩ := stream_printf hps
    obtain ⟨st, buf, hst, hbuf, hbounded⟩ := array_snprintf hps size
    refine ⟨st, full, textOf ps, hst, hfull, htext, ?_⟩
    rw [hbuf]
    by_cases hsize : size = 0
    · subst hsize
      have hnil := (textOf_eq_nil_iff ps).mpr (hok.resolve_left fun h => h rfl)
      rw [terminate_zero]
      exact ⟨fun i hi => absurd (hbounded.nothing_stored_iff.mpr hnil i) hi,
        fun h => absurd rfl h⟩
    · have hlen : ((textOf ps).take (size.toNat - 1)).length =
          min (size.toNat - 1) (textOf ps).length := List.length_take
      have hpos : 0 < size.toNat := Nat.pos_of_ne_zero fun h₀ => hsize (UInt64.toNat_inj.mp h₀)
      refine ⟨fun i hi => ?_, fun _ => ⟨fun i hi => ?_, ?_⟩⟩
      · rw [boundedBy_terminate hsize hbounded] at hi
        by_contra hge
        refine hi (List.getElem?_eq_none ?_)
        rw [List.length_append, hlen, List.length_singleton]
        omega
      · rw [boundedBy_terminate hsize hbounded, List.getElem?_append_left (by rwa [hlen])]
        exact List.getElem?_take_of_lt (by omega)
      · rw [boundedBy_terminate hsize hbounded, ← hlen, List.getElem?_concat_length]

/-- **Size zero**: a character is stored where there is no array. -/
theorem size_zero : ¬ SnprintfCorrect ⟨fun _ => [], fun _ => []⟩ 0 (str "a" ++ [0]) [] := by
  rintro ⟨st, full, text, hst, -, -, hbelow, -⟩
  have hps : pieces ⟨fun _ => [], fun _ => []⟩ (str "a" ++ [0]) [] 0 =
      some [⟨str "a", 1, none⟩] := by
    have hletter : (str "a" ++ [0]).head? ≠ some 0 := by decide
    have hend : ([0] : Str).head? = some 0 := rfl
    rw [pieces_next hletter]
    exact congrArg (Option.map (Piece.mk (str "a") 1 none :: ·)) (pieces_end hend [] _)
  obtain ⟨st', buf, hst', hbuf, hbounded⟩ := array_snprintf hps 0
  rw [terminate_zero] at hbuf
  rw [hst', Option.some_inj] at hst
  have hnil : str "a" = [] := hbounded.nothing_stored_iff.mp fun i => by
    by_contra hstored
    rw [← hbuf, hst] at hstored
    exact absurd (hbelow i hstored) (Nat.not_lt_zero i)
  exact absurd hnil (by decide)

end PrismaticOS.Libc
