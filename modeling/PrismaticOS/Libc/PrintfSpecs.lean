import Mathlib.Data.List.TakeWhile
import PrismaticOS.Libc.IntConversions
import PrismaticOS.Library.Scanning

/-!
# The text of a conversion specification

What `vprintf_internal` takes for the flags, the width, the precision and the length modifier of a
conversion.

## The model

A specification is what is between a `%` and the specifier. The loop over the format takes a
character, or a `%`, a specification and the character behind it, whatever the arguments are: these
decide only what is printed. It reads what it takes, and in front of each turn one character more.

## What is proved

* `skipSpec_skips` — `vprintf_internal` takes the longest specification that is there.
* `nextPiece_rest` — where it is in the format after a turn.
-/

namespace PrismaticOS.Libc

open PrismaticOS.Library

/-! ### Specifications -/

/-- A flag. -/
def isFlag (c : UInt8) : Bool := c = chr '+' ∨ c = chr ' ' ∨ c = chr '-' ∨ c = chr '0'

/-- A width or a precision: an argument or a number, which may have no digits. -/
def IsCount (s : Str) : Prop := s = [chr '*'] ∨ ∀ c ∈ s, isdigit c = true

/-- A point and a precision, or nothing. -/
def IsPrecision (s : Str) : Prop := s = [] ∨ ∃ count, IsCount count ∧ s = chr '.' :: count

/-- The text between a `%` and the specifier. -/
def IsSpec (s : Str) : Prop :=
  ∃ flags width precision, ∃ length : LengthModifier, (∀ c ∈ flags, isFlag c = true) ∧
    IsCount width ∧ IsPrecision precision ∧ s = flags ++ (width ++ (precision ++ length.chars))

/-! ### Where the parser is after them -/

/-- After a width. -/
def skipCount (format : Str) : Str :=
  if format.head? = some (chr '*') then format.tail else format.dropWhile isdigit

/-- After a precision. -/
def skipPrecision (format : Str) : Str :=
  if format.head? = some (chr '.') then skipCount format.tail else format

/-- After a specification. -/
def skipSpec (format : Str) : Str :=
  (parseLength (skipPrecision (skipCount (format.dropWhile isFlag)))).2

section
variable {format rest s v w : Str} {c : UInt8} {args args' : List UInt64}

theorem isFlag_iff : isFlag c = true ↔ c = chr '+' ∨ c = chr ' ' ∨ c = chr '-' ∨ c = chr '0' :=
  decide_eq_true_iff

/-- The flags end. -/
theorem parseFlags_end (hc : ¬ isFlag c = true) (rest : Str) (flags : UInt32) :
    parseFlags (c :: rest) flags = (flags, c :: rest) := by
  rw [isFlag_iff, not_or, not_or, not_or] at hc
  rw [parseFlags, if_neg hc.1, if_neg hc.2.1, if_neg hc.2.2.1, if_neg hc.2.2.2]

theorem parseFlags_rest (format : Str) (flags : UInt32) :
    (parseFlags format flags).2 = format.dropWhile isFlag := by
  induction format generalizing flags with
  | nil => rfl
  | cons c rest ih =>
    rw [List.dropWhile_cons]
    by_cases hc : isFlag c = true
    · rw [if_pos hc, parseFlags]
      rcases isFlag_iff.mp hc with rfl | rfl | rfl | rfl
      · exact ih _
      · exact ih _
      · exact ih _
      · exact ih _
    · rw [if_neg hc, parseFlags_end hc]

theorem parseNumber_rest (format : Str) (number : Int32) :
    (parseNumber format number).2 = format.dropWhile isdigit := by
  induction format generalizing number with
  | nil => rfl
  | cons c rest ih =>
    rw [parseNumber, List.dropWhile_cons]
    split_ifs
    · exact ih _
    · rfl

theorem parseCount_rest {r : Int32 × Str × List UInt64} (h : parseCount format args = some r) :
    r.2.1 = skipCount format := by
  unfold parseCount at h
  unfold skipCount
  split_ifs at h ⊢
  · obtain ⟨slot, -, rfl⟩ := Option.map_eq_some_iff.mp h
    rfl
  · cases h
    exact parseNumber_rest format 0

theorem parsePrecision_rest {r : Int32 × Str × List UInt64}
    (h : parsePrecision format args = some r) : r.2.1 = skipPrecision format := by
  unfold parsePrecision at h
  unfold skipPrecision
  split_ifs at h ⊢
  · exact parseCount_rest h
  · cases h
    rfl

theorem parseSpec_rest {r : FormatSpec × Str × List UInt64} (h : parseSpec format args = some r) :
    r.2.1 = skipSpec format := by
  simp only [parseSpec, Option.bind_eq_some_iff, Option.map_eq_some_iff] at h
  obtain ⟨width, hwidth, precision, hprecision, rfl⟩ := h
  rw [skipSpec, ← parseFlags_rest format 0, ← parseCount_rest hwidth, ← parsePrecision_rest hprecision]

/-- **Where the loop is after a turn.** -/
theorem nextPiece_rest {mem : PrintfMemory} {count : Int32} {r : Piece × Str × List UInt64}
    (h : nextPiece mem format args count = some r) :
    scanTurn (chr '%') skipSpec format = some r.2.1 := by
  cases format with
  | nil => cases h
  | cons c rest =>
    simp only [nextPiece] at h
    rw [scanTurn]
    split_ifs at h ⊢ with hpercent
    · obtain ⟨⟨spec, left, args'⟩, hspec, h⟩ := Option.bind_eq_some_iff.mp h
      have hleft : left = skipSpec rest := parseSpec_rest hspec
      rw [← hleft]
      cases left with
      | nil => cases h
      | cons d left =>
        obtain ⟨⟨piece, args''⟩, -, rfl⟩ := Option.map_eq_some_iff.mp h
        rfl
    · cases h
      rfl

/-! ### The longest specification -/

theorem skipCount_suffix (format : Str) : skipCount format <:+ format := by
  unfold skipCount
  split_ifs
  · exact List.tail_suffix _
  · exact List.dropWhile_suffix _

theorem skipPrecision_suffix (format : Str) : skipPrecision format <:+ format := by
  unfold skipPrecision
  split_ifs
  · exact (skipCount_suffix _).trans (List.tail_suffix _)
  · exact List.suffix_rfl

theorem parseLength_suffix (format : Str) : (parseLength format).2 <:+ format := by
  cases format with
  | nil => exact List.suffix_rfl
  | cons c rest =>
    simp only [parseLength]
    split_ifs
    · exact (List.tail_suffix _).trans (List.suffix_cons _ _)
    · exact List.suffix_cons _ _
    · exact (List.tail_suffix _).trans (List.suffix_cons _ _)
    · exact List.suffix_cons _ _
    · exact List.suffix_cons _ _
    · exact List.suffix_cons _ _
    · exact List.suffix_cons _ _
    · exact List.suffix_cons _ _
    · exact List.suffix_rfl

/-- A character that no number goes on with. -/
def Foreign (c : UInt8) : Prop := isFlag c = false ∧ isdigit c = false ∧ c ≠ chr '*'

instance (c : UInt8) : Decidable (Foreign c) := inferInstanceAs (Decidable (_ ∧ _))

theorem skipCount_foreign (h : ∀ c ∈ w.head?, Foreign c) : skipCount w = w := by
  cases w with
  | nil => rfl
  | cons c w =>
    obtain ⟨-, hdigit, hstar⟩ := h c rfl
    have hne : (c :: w).head? ≠ some (chr '*') := fun heq => hstar (Option.some.inj heq)
    rw [skipCount, if_neg hne, List.dropWhile_cons_of_neg (by rw [hdigit]; exact Bool.false_ne_true)]

theorem dropFlags_foreign (h : ∀ c ∈ w.head?, Foreign c) : w.dropWhile isFlag = w := by
  cases w with
  | nil => rfl
  | cons c w =>
    exact List.dropWhile_cons_of_neg (by rw [(h c rfl).1]; exact Bool.false_ne_true)

/-- A width is taken. -/
theorem skipCount_append {width : Str} (h : IsCount width) (w : Str) :
    skipCount (width ++ w) = w ∨ skipCount (width ++ w) = w.dropWhile isdigit ∨
      skipCount (width ++ w) = skipCount w := by
  rcases h with rfl | hdigits
  · exact .inl rfl
  · cases width with
    | nil => exact .inr (.inr rfl)
    | cons d width =>
      have hd : isdigit d = true := hdigits d List.mem_cons_self
      have hne : (d :: width ++ w).head? ≠ some (chr '*') := by
        rintro heq
        rw [Option.some.inj heq] at hd
        revert hd
        decide
      refine .inr (.inl ?_)
      rw [skipCount, if_neg hne, List.dropWhile_append_of_pos hdigits]

theorem skipCount_append_suffix {width : Str} (h : IsCount width) (w : Str) :
    skipCount (width ++ w) <:+ w := by
  rcases skipCount_append h w with heq | heq | heq
  · rw [heq]
  · rw [heq]
    exact List.dropWhile_suffix _
  · rw [heq]
    exact skipCount_suffix w

theorem skipCount_append_foreign {width : Str} (h : IsCount width) (hw : ∀ c ∈ w.head?, Foreign c) :
    skipCount (width ++ w) = w := by
  rcases skipCount_append h w with heq | heq | heq
  · exact heq
  · rw [heq]
    cases w with
    | nil => rfl
    | cons c w =>
      exact List.dropWhile_cons_of_neg (by rw [(hw c rfl).2.1]; exact Bool.false_ne_true)
  · rw [heq, skipCount_foreign hw]

theorem skipPrecision_append_suffix {precision : Str} (h : IsPrecision precision) (w : Str) :
    skipPrecision (precision ++ w) <:+ w := by
  rcases h with rfl | ⟨count, hcount, rfl⟩
  · exact skipPrecision_suffix w
  · exact skipCount_append_suffix hcount w

theorem skipPrecision_append_foreign {precision : Str} (h : IsPrecision precision)
    (hw : ∀ c ∈ w.head?, Foreign c ∧ c ≠ chr '.') : skipPrecision (precision ++ w) = w := by
  rcases h with rfl | ⟨count, hcount, rfl⟩
  · refine if_neg fun heq => ?_
    exact (hw _ heq).2 rfl
  · exact skipCount_append_foreign hcount fun c hc => (hw c hc).1

/-- A length modifier is taken. -/
theorem parseLength_append_suffix (length : LengthModifier) (w : Str) :
    (parseLength (length.chars ++ w)).2 <:+ w := by
  have hh : (parseLength (chr 'h' :: w)).2 <:+ w := by
    rw [parseLength, if_pos rfl]
    split_ifs
    · exact List.tail_suffix w
    · exact List.suffix_rfl
  have hl : (parseLength (chr 'l' :: w)).2 <:+ w := by
    rw [parseLength, if_neg (by decide), if_pos rfl]
    split_ifs
    · exact List.tail_suffix w
    · exact List.suffix_rfl
  cases length with
  | none => exact parseLength_suffix w
  | h => exact hh
  | l => exact hl
  | hh => exact List.suffix_rfl
  | ll => exact List.suffix_rfl
  | j => exact List.suffix_rfl
  | z => exact List.suffix_rfl
  | t => exact List.suffix_rfl
  | L => exact List.suffix_rfl

/-- A length modifier is not a part of a number. -/
theorem length_foreign {length : LengthModifier} (h : length ≠ .none) (v : Str) :
    ∀ c ∈ (length.chars ++ v).head?, Foreign c ∧ c ≠ chr '.' := by
  intro c hc
  cases length with
  | none => exact absurd rfl h
  | _ =>
    obtain rfl := Option.some.inj hc
    decide

/-- What is behind the width is taken. -/
theorem skipPrecision_parseLength {precision : Str} (hp : IsPrecision precision)
    (length : LengthModifier) (v : Str) :
    (parseLength (skipPrecision (precision ++ (length.chars ++ v)))).2 <:+ v := by
  by_cases hl : length = .none
  · subst hl
    exact (parseLength_suffix _).trans (skipPrecision_append_suffix hp v)
  · rw [skipPrecision_append_foreign hp (length_foreign hl v)]
    exact parseLength_append_suffix length v

/-- Nothing of the rest, or a character that is not a part of a width. -/
theorem tail_foreign {precision : Str} (hp : IsPrecision precision) {length : LengthModifier}
    (h : ¬ (precision = [] ∧ length = .none)) (v : Str) :
    ∀ c ∈ (precision ++ (length.chars ++ v)).head?, Foreign c := by
  rcases hp with rfl | ⟨count, -, rfl⟩
  · exact fun c hc => (length_foreign (fun hl => h ⟨rfl, hl⟩) v c hc).1
  · intro c hc
    obtain rfl := Option.some.inj hc
    decide

/-- What is behind the flags is taken. -/
theorem skipWidth_append {width precision : Str} (hw : IsCount width) (hp : IsPrecision precision)
    (length : LengthModifier) (v : Str) :
    (parseLength (skipPrecision (skipCount (width ++ (precision ++ (length.chars ++ v)))))).2 <:+ v := by
  by_cases hnone : precision = [] ∧ length = .none
  · obtain ⟨rfl, rfl⟩ := hnone
    exact ((parseLength_suffix _).trans (skipPrecision_suffix _)).trans (skipCount_append_suffix hw v)
  · rw [skipCount_append_foreign hw (tail_foreign hp hnone v)]
    exact skipPrecision_parseLength hp length v

/-- **A specification is taken** as a whole. -/
theorem skipSpec_append (h : IsSpec s) (v : Str) : skipSpec (s ++ v) <:+ v := by
  obtain ⟨flags, width, precision, length, hflags, hw, hp, rfl⟩ := h
  simp only [skipSpec, List.append_assoc]
  rw [List.dropWhile_append_of_pos hflags]
  rcases hw with rfl | hdigits
  · exact skipWidth_append (.inl rfl) hp length v
  · -- zeros are taken for flags
    rw [List.dropWhile_append]
    split_ifs with hzeros
    · by_cases hnone : precision = [] ∧ length = .none
      · obtain ⟨rfl, rfl⟩ := hnone
        refine List.IsSuffix.trans ?_ (List.dropWhile_suffix isFlag)
        exact ((parseLength_suffix _).trans (skipPrecision_suffix _)).trans (skipCount_suffix _)
      · rw [dropFlags_foreign (tail_foreign hp hnone v)]
        have hempty : IsCount [] := .inr nofun
        exact skipWidth_append hempty hp length v
    · have hrest : IsCount (width.dropWhile isFlag) :=
        .inr fun c hc => hdigits c ((List.dropWhile_suffix isFlag).subset hc)
      exact skipWidth_append hrest hp length v

theorem head_tail (h : v.head? = some c) : v = c :: v.tail := by
  cases v with
  | nil => cases h
  | cons d v => rw [Option.some.inj h, List.tail_cons]

theorem skipCount_took (v : Str) : ∃ width, IsCount width ∧ v = width ++ skipCount v := by
  unfold skipCount
  split_ifs with hstar
  · exact ⟨[chr '*'], .inl rfl, head_tail hstar⟩
  · exact ⟨v.takeWhile isdigit, .inr fun c hc => List.mem_takeWhile_imp hc,
      List.takeWhile_append_dropWhile.symm⟩

theorem skipPrecision_took (v : Str) :
    ∃ precision, IsPrecision precision ∧ v = precision ++ skipPrecision v := by
  unfold skipPrecision
  split_ifs with hpoint
  · obtain ⟨count, hcount, heq⟩ := skipCount_took v.tail
    refine ⟨chr '.' :: count, .inr ⟨count, hcount, rfl⟩, ?_⟩
    rw [List.cons_append, ← heq]
    exact head_tail hpoint
  · exact ⟨[], .inl rfl, rfl⟩

theorem parseLength_took (v : Str) : ∃ length : LengthModifier, v = length.chars ++ (parseLength v).2 := by
  cases v with
  | nil => exact ⟨.none, rfl⟩
  | cons c rest =>
    simp only [parseLength]
    split_ifs with hh hhh hl hll hj hz ht hL
    · exact ⟨.hh, by rw [hh]; exact congrArg (chr 'h' :: ·) (head_tail hhh)⟩
    · exact ⟨.h, by rw [hh]; rfl⟩
    · exact ⟨.ll, by rw [hl]; exact congrArg (chr 'l' :: ·) (head_tail hll)⟩
    · exact ⟨.l, by rw [hl]; rfl⟩
    · exact ⟨.j, by rw [hj]; rfl⟩
    · exact ⟨.z, by rw [hz]; rfl⟩
    · exact ⟨.t, by rw [ht]; rfl⟩
    · exact ⟨.L, by rw [hL]; rfl⟩
    · exact ⟨.none, rfl⟩

/-- What `skipSpec` takes is a specification. -/
theorem skipSpec_took (format : Str) : ∃ s, IsSpec s ∧ format = s ++ skipSpec format := by
  obtain ⟨width, hw, hwidth⟩ := skipCount_took (format.dropWhile isFlag)
  obtain ⟨precision, hp, hprecision⟩ := skipPrecision_took (skipCount (format.dropWhile isFlag))
  obtain ⟨length, hlength⟩ :=
    parseLength_took (skipPrecision (skipCount (format.dropWhile isFlag)))
  refine ⟨format.takeWhile isFlag ++ (width ++ (precision ++ length.chars)),
    ⟨_, width, precision, length, fun c hc => List.mem_takeWhile_imp hc, hw, hp, rfl⟩, ?_⟩
  calc format = format.takeWhile isFlag ++ format.dropWhile isFlag :=
        List.takeWhile_append_dropWhile.symm
    _ = format.takeWhile isFlag ++ (width ++ (precision ++ (length.chars ++ skipSpec format))) := by
      rw [skipSpec, ← hlength, ← hprecision, ← hwidth]
    _ = _ := by simp only [List.append_assoc]

/-- **`vprintf_internal` takes the longest specification.** -/
theorem skipSpec_skips : Skips IsSpec skipSpec where
  took := skipSpec_took
  longest _ v hs := (skipSpec_append hs v).length_le

/-- There is no zero in a specification. -/
theorem zero_notMem_spec (h : IsSpec s) : 0 ∉ s := by
  have hcount : ∀ count, IsCount count → 0 ∉ count := by
    rintro count (rfl | hdigits) hzero
    · revert hzero
      decide
    · exact absurd (hdigits 0 hzero) (by decide)
  obtain ⟨flags, width, precision, length, hflags, hw, hp, rfl⟩ := h
  have hflag : 0 ∉ flags := fun hzero => absurd (hflags 0 hzero) (by decide)
  have hprecision : 0 ∉ precision := by
    rcases hp with rfl | ⟨count, hc, rfl⟩
    · exact List.not_mem_nil
    · rw [List.mem_cons, not_or]
      exact ⟨by decide, hcount count hc⟩
  have hlength : 0 ∉ length.chars := by cases length <;> decide
  simp only [List.mem_append, not_or]
  exact ⟨hflag, hcount width hw, hprecision, hlength⟩

end

end PrismaticOS.Libc
