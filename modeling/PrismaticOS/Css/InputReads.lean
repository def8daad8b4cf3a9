import PrismaticOS.Css.TokenForms
import PrismaticOS.Html.InputReads

/-!
# What the CSS parser reads of its input

The functions of `html/src/css/css_parser.c` from `css_parse_ident` to `css_next_token` once more,
with `parser->position` and with every index of `parser->input` that they read.

## The model

A function takes a `Cursor`, which is the position and the list of the indices that were read, and
returns one. `memcpy` reads all indices from the start of a part to the position, and `strncasecmp`
may read four. The byte at an index behind the input is zero. What `css_parse_number_or_ident`
reads, which is in no file, is not recorded.

## What is proved

* `nextTokenAt_agrees` — the functions find what those do that take a position, leave the same
  position, and read nothing behind the input.
-/

namespace PrismaticOS.Css

open PrismaticOS.Libc
open PrismaticOS.Html (Cursor skip wordAt)

/-! ### The functions -/

/-- A sign. -/
def isSign (ch : UInt8) : Bool := ch == chr '+' || ch == chr '-'

/-- The letters in front of an exponent. -/
def isExponent (ch : UInt8) : Bool := ch == chr 'e' || ch == chr 'E'

/-- The characters where a token of two characters may begin. -/
def isPairStart (ch : UInt8) : Bool :=
  ch == chr '~' || ch == chr '|' || ch == chr '^' || ch == chr '$' || ch == chr '*'

section
variable (input : Str)

/-- The character at an index is looked at, if the index is in the input. -/
def lookAt (f : UInt8 → Bool) (i : ℕ) (c : Cursor) : Bool × Cursor :=
  if i < input.length then (f (input.getD i 0), c.read i) else (false, c)

/-- `css_parse_ident`. -/
def identAt (c : Cursor) : Option Str × Cursor :=
  let other := lookAt input (fun ch => !isIdentStart ch) c.position c
  if other.1 then (none, other.2)
  else
    let first := if c.position < input.length then other.2.advance 1 else other.2
    let stop := skip input isIdentChar first
    if c.position = stop.position then (none, stop)
    else (some (slice input c.position stop.position), stop.copy c.position)

/-- The loop of `css_parse_string` and of `css_parse_url`. -/
def escapedAt (last : UInt8) (c : Cursor) : Cursor :=
  if c.position < input.length then
    if input.getD c.position 0 = last then c.read c.position
    else if input.getD c.position 0 = chr '\\' ∧ c.position + 1 < input.length then
      escapedAt last ((c.read c.position).advance 2)
    else escapedAt last ((c.read c.position).advance 1)
  else c
termination_by input.length - c.position
decreasing_by
  all_goals
    simp only [Html.Cursor.advance_position, Html.Cursor.read_position]
    omega

/-- `css_parse_string`. -/
def stringAt (quote : UInt8) (c : Cursor) : Option Str × Cursor :=
  let stop := escapedAt input quote (c.advance 1)
  if input.length ≤ stop.position then (none, stop)
  else (some (slice input (c.position + 1) stop.position),
    (stop.copy (c.position + 1)).advance 1)

/-- The part of `css_parse_url` without a quote. -/
def bareUrlAt (c : Cursor) : Option Str × Cursor :=
  let stop := escapedAt input (chr ')') c
  if input.length ≤ stop.position then (none, stop)
  else (some (slice input c.position stop.position), stop.copy c.position)

/-- `css_parse_url`. -/
def urlAt (c : Cursor) : Option Str × Cursor :=
  let start := skip input isspace (c.advance 3)
  let quoted := lookAt input isQuote start.position start
  let url := if quoted.1 then stringAt input (input.getD start.position 0) quoted.2
    else bareUrlAt input quoted.2
  if !quoted.1 && url.1.isNone then url
  else
    let stop := skip input isspace url.2
    let close := lookAt input (· == chr ')') stop.position stop
    if close.1 then (url.1, close.2.advance 1) else (none, close.2)

/-- The sign in `css_parse_number`, which is read without a look at the length. -/
def signAt (c : Cursor) : Cursor :=
  let first := c.read c.position
  if isSign (input.getD c.position 0) then first.advance 1 else first

/-- The decimal point in `css_parse_number`, and the digits behind it. -/
def decimalAt (c : Cursor) : Bool × Cursor :=
  let point := lookAt input (· == chr '.') c.position c
  (point.1, if point.1 then skip input isdigit (point.2.advance 1) else point.2)

/-- The exponent in `css_parse_number`. -/
def exponentAt (c : Cursor) : Bool × Cursor :=
  let letter := lookAt input isExponent c.position c
  let sign := lookAt input isSign (c.position + 1) (letter.2.advance 1)
  (letter.1,
    if letter.1 then skip input isdigit (if sign.1 then sign.2.advance 1 else sign.2)
    else letter.2)

/-- `css_parse_number`. -/
def numberAt (c : Cursor) : CssToken × Cursor :=
  let decimal := decimalAt input (skip input isdigit (signAt input c))
  let exponent := exponentAt input decimal.2
  (⟨if decimal.1 || exponent.1 then .number else .integer,
    some (slice input c.position exponent.2.position), c.position⟩, exponent.2.copy c.position)

/-- The loop of `css_next_token` over a comment. -/
def commentEndAt (c : Cursor) : Cursor :=
  if c.position + 1 < input.length then
    let found := wordAt input [chr '*', chr '/'] c.position c
    if found.1 then found.2 else commentEndAt (found.2.advance 1)
  else c
termination_by input.length - c.position
decreasing_by
  simp only [Html.Cursor.advance_position, Html.wordAt_position]
  omega

theorem le_commentEndAt (c : Cursor) : c.position ≤ (commentEndAt input c).position := by
  fun_induction commentEndAt input c with
  | case1 c hlt found hfound => exact (Html.wordAt_position input _ _ c).ge
  | case2 c hlt found hfound ih =>
    have hposition : found.2.position = c.position := Html.wordAt_position input _ _ c
    rw [Html.Cursor.advance_position, hposition] at ih
    exact (Nat.le_succ _).trans ih
  | case3 c hlt => exact le_rfl

/-- A comment begins here: `c` is the character at the position, which was read. -/
def commentStartAt (ch : UInt8) (c : Cursor) : Bool × Cursor :=
  if ch = chr '/' then lookAt input (· == chr '*') (c.position + 1) c else (false, c)

theorem commentStartAt_position (ch : UInt8) (c : Cursor) :
    (commentStartAt input ch c).2.position = c.position := by
  unfold commentStartAt lookAt
  split_ifs <;> rfl

/-- The loop of `css_next_token` over spaces and comments. -/
def blankAt (c : Cursor) : Cursor :=
  if c.position < input.length then
    let ch := input.getD c.position 0
    let comment := commentStartAt input ch (c.read c.position)
    if isspace ch then blankAt ((c.read c.position).advance 1)
    else if comment.1 then blankAt ((commentEndAt input (comment.2.advance 2)).advance 2)
    else comment.2
  else c
termination_by input.length - c.position
decreasing_by
  · simp only [Html.Cursor.advance_position, Html.Cursor.read_position]
    omega
  · have hstart : comment.2.position = c.position := commentStartAt_position input ch _
    have hend : comment.2.position + 2 ≤ (commentEndAt input (comment.2.advance 2)).position :=
      le_commentEndAt input (comment.2.advance 2)
    have hpast : c.position < (commentEndAt input (comment.2.advance 2)).position + 2 := by omega
    exact Nat.sub_lt_sub_left ‹c.position < input.length› hpast

/-- The end of `css_next_token`. -/
def fallbackAt (offset : ℕ) (ch : UInt8) (c : Cursor) : CssToken × Cursor :=
  (⟨.delim, some [ch], offset⟩, c.advance 1)

/-- A token that one of the functions above read, if it read one. -/
def tokenOrAt (offset : ℕ) (type : CssTokenType) (ch : UInt8) (found : Option Str × Cursor) :
    CssToken × Cursor :=
  match found with
  | (some value, c) => (⟨type, some value, offset⟩, c)
  | (none, c) => fallbackAt offset ch c

/-- The part of `css_next_token` behind a `#`. -/
def hashAt (c : Cursor) : Option Str × Cursor :=
  let digit := lookAt input isxdigit c.position c
  if digit.1 then
    let stop := skip input isxdigit digit.2
    (some (slice input c.position stop.position), stop.copy c.position)
  else (none, digit.2)

/-- A URL begins here. -/
def urlStartAt (c : Cursor) : Bool × Cursor :=
  if c.position + 3 < input.length then
    (sameCase (slice input c.position (c.position + 4)) (str "url("),
      { c with reads := List.range' c.position 4 ++ c.reads })
  else (false, c)

/-- The part of `css_next_token` for tokens of several characters. -/
def longTokenAt (numbers : NumberReader) (ch : UInt8) (c : Cursor) : CssToken × Cursor :=
  if ch = chr '*' then fallbackAt c.position ch c
  else if ch = chr '@' then tokenOrAt c.position .atKeyword ch (identAt input (c.advance 1))
  else if ch = chr '#' then tokenOrAt c.position .hash ch (hashAt input (c.advance 1))
  else if ch = chr '.' then
    let digit := lookAt input isdigit (c.position + 1) c
    if digit.1 then numberAt input digit.2 else fallbackAt c.position ch digit.2
  else if ch = chr '-' ∨ isdigit ch then
    ((numbers.read input c.position).1, { c with position := (numbers.read input c.position).2 })
  else if isQuote ch then tokenOrAt c.position .string ch (stringAt input ch c)
  else if ch = chr 'u' ∨ ch = chr 'U' then
    let url := urlStartAt input c
    if url.1 then tokenOrAt c.position .url ch (urlAt input url.2)
    else tokenOrAt c.position .ident ch (identAt input url.2)
  else if isalpha ch || ch == chr '_' then tokenOrAt c.position .ident ch (identAt input c)
  else fallbackAt c.position ch c

/-- The character behind one where a token of two characters may begin. -/
def pairAt (ch : UInt8) (c : Cursor) : Option CssTokenType × Cursor :=
  if isPairStart ch ∧ c.position + 1 < input.length then
    (doubleToken ch (input.getD (c.position + 1) 0), c.read (c.position + 1))
  else (none, c)

/-- The part of `css_next_token` at the first character of a token. -/
def tokenAt (numbers : NumberReader) (ch : UInt8) (c : Cursor) : CssToken × Cursor :=
  match singleToken ch with
  | some type => (⟨type, none, c.position⟩, c.advance 1)
  | none =>
    match pairAt input ch c with
    | (some type, c) => (⟨type, none, c.position⟩, c.advance 2)
    | (none, c) => longTokenAt input numbers ch c

/-- `css_next_token`. -/
def nextTokenAt (numbers : NumberReader) (c : Cursor) : Option CssToken × Cursor :=
  if input.length ≤ c.position then (none, c)
  else
    let c := blankAt input c
    if input.length ≤ c.position then (none, c)
    else
      let ch := input.getD c.position 0
      let token := tokenAt input numbers ch (c.read c.position)
      (some token.1, token.2)

end

/-! ### What they find, and what they read -/

/-- The cursor stands at a position, and nothing behind the input was read. -/
structure Follows (input : Str) (c : Cursor) (pos : ℕ) : Prop where
  /-- Where it stands. -/
  position : c.position = pos
  /-- What was read. -/
  reads : ∀ i ∈ c.reads, i < input.length

/-- Two functions find the same, and leave the same position. -/
def Agrees {α : Type*} (input : Str) (r : α × Cursor) (r' : α × ℕ) : Prop :=
  r.1 = r'.1 ∧ Follows input r.2 r'.2

section
variable {input : Str} {c : Cursor} {pos i : ℕ} {f : UInt8 → Bool} {ch : UInt8}

theorem Follows.read (h : Follows input c pos) (hi : i < input.length) :
    Follows input (c.read i) pos := by
  refine ⟨h.position, fun j hj => ?_⟩
  rcases List.mem_cons.mp hj with rfl | hj
  · exact hi
  · exact h.reads j hj

theorem Follows.here (h : Follows input c pos) : Follows input c c.position := ⟨rfl, h.reads⟩

theorem Follows.advance (h : Follows input c pos) (n : ℕ) :
    Follows input (c.advance n) (pos + n) :=
  ⟨congrArg (· + n) h.position, h.reads⟩

/-- Any indices before the end are read. -/
theorem Follows.readRange (h : Follows input c pos) {start n : ℕ} (hn : start + n ≤ input.length) :
    Follows input { c with reads := List.range' start n ++ c.reads } pos := by
  refine ⟨h.position, fun j hj => ?_⟩
  rcases List.mem_append.mp hj with hj | hj
  · exact (List.mem_range'_1.mp hj).2.trans_le hn
  · exact h.reads j hj

/-- What was passed is copied. -/
theorem Follows.copy (h : Follows input c pos) {start : ℕ} (hstart : start ≤ pos)
    (hpos : pos ≤ input.length) : Follows input (c.copy start) pos := by
  have hposition := h.position
  exact h.readRange (by omega)

theorem looksAtA_getD (hi : i < input.length) (f : UInt8 → Bool) :
    looksAtA input i f = f (input.getD i 0) := by
  rw [looksAtA, List.getD_eq_getElem?_getD, List.getElem?_eq_getElem hi, Option.any_some,
    Option.getD_some]

/-- The look at a character. -/
theorem lookAt_agrees (h : Follows input c pos) (f : UInt8 → Bool) (i : ℕ) :
    (lookAt input f i c).1 = looksAtA input i f ∧ Follows input (lookAt input f i c).2 pos := by
  unfold lookAt
  split_ifs with hi
  · exact ⟨(looksAtA_getD hi f).symm, h.read hi⟩
  · refine ⟨?_, h⟩
    rw [looksAtA, List.getElem?_eq_none (not_lt.mp hi), Option.any_none]

theorem looksAt_eq (input : Str) (i : ℕ) (ch : UInt8) :
    looksAt input i ch = looksAtA input i (· == ch) := by
  unfold looksAt looksAtA
  cases input[i]? <;> rfl

theorem looksAtA_or (input : Str) (i : ℕ) (f g : UInt8 → Bool) :
    looksAtA input i (fun ch => f ch || g ch) = (looksAtA input i f || looksAtA input i g) := by
  unfold looksAtA
  cases input[i]? <;> rfl

theorem skipWhile_eq (input : Str) (pos : ℕ) (f : UInt8 → Bool) : skipWhile input pos f =
    if looksAtA input pos f then skipWhile input (pos + 1) f else pos := by
  by_cases hpos : pos < input.length
  · have hdrop : input.drop pos = input[pos] :: input.drop (pos + 1) :=
      List.drop_eq_getElem_cons hpos
    rw [looksAtA_of_drop hdrop, skipWhile, hdrop, skipWhile, List.takeWhile_cons]
    split_ifs
    · rw [List.length_cons]
      omega
    · rfl
  · have hdrop : input.drop pos = [] := List.drop_eq_nil_of_le (not_lt.mp hpos)
    rw [looksAtA, List.getElem?_eq_none (not_lt.mp hpos), skipWhile, hdrop]
    rfl

/-- **A loop** over the characters of a kind. -/
theorem skip_follows (h : Follows input c pos) (f : UInt8 → Bool) :
    Follows input (skip input f c) (skipWhile input pos f) := by
  fun_induction skip input f c generalizing pos with
  | case1 c hlt hf ih =>
    obtain rfl := h.position
    rw [skipWhile_eq, looksAtA_getD hlt, if_pos hf]
    exact ih ((h.read hlt).advance 1)
  | case2 c hlt hf =>
    obtain rfl := h.position
    rw [skipWhile_eq, looksAtA_getD hlt, if_neg hf]
    exact h.read hlt
  | case3 c hlt =>
    obtain rfl := h.position
    rw [skipWhile_eq, if_neg]
    · exact h
    · exact fun hlook => hlt (looksAtA_lt input _ hlook)

theorem ident_agrees (h : Follows input c pos) :
    Agrees input (identAt input c) (cssParseIdent input pos) := by
  obtain rfl := h.position
  obtain ⟨hother, hfollows⟩ := lookAt_agrees h (fun ch => !isIdentStart ch) c.position
  by_cases hlt : c.position < input.length
  · rw [looksAtA_getD hlt] at hother
    unfold identAt cssParseIdent
    simp only [hother, if_pos hlt, looksAtA_getD hlt]
    cases isIdentStart (input.getD c.position 0) with
    | false => exact ⟨rfl, hfollows⟩
    | true =>
      have hstop := skip_follows (hfollows.advance 1) isIdentChar
      have hgo : c.position + 1 ≤ skipWhile input (c.position + 1) isIdentChar := le_skipWhile _
      have hend : skipWhile input (c.position + 1) isIdentChar ≤ input.length :=
        skipWhile_le isIdentChar hlt
      simp only [hstop.position, Bool.not_true, Bool.false_eq_true, if_false, if_true]
      rw [if_neg (by omega)]
      exact ⟨rfl, hstop.copy (by omega) hend⟩
  · have hend : lookAt input (fun ch => !isIdentStart ch) c.position c = (false, c) := by
      rw [lookAt, if_neg hlt]
    have hskip : skip input isIdentChar c = c := by rw [skip, if_neg hlt]
    have hnone : looksAtA input c.position isIdentStart = false :=
      Bool.eq_false_iff.mpr fun hlook => hlt (looksAtA_lt input _ hlook)
    unfold identAt cssParseIdent
    simp only [hend, hnone, if_neg hlt, hskip]
    exact ⟨rfl, h⟩

/-- The loop over a string or a URL. -/
theorem escaped_follows (h : Follows input c pos) (last : UInt8) :
    Follows input (escapedAt input last c) (skipEscaped input last pos) := by
  fun_induction escapedAt input last c generalizing pos with
  | case1 c hlt hlast =>
    obtain rfl := h.position
    rw [skipEscaped, dif_neg]
    · exact h.read hlt
    · rw [looksAtA_getD hlt, hlast]
      simp
  | case2 c hlt hlast hescape ih =>
    obtain rfl := h.position
    have hpass : looksAtA input c.position (· != last) = true := by
      rw [looksAtA_getD hlt]
      exact bne_iff_ne.mpr hlast
    rw [skipEscaped, dif_pos hpass, if_pos]
    · exact ih ((h.read hlt).advance 2)
    · rw [looksAt_eq, looksAtA_getD hlt, hescape.1]
      simp [hescape.2]
  | case3 c hlt hlast hescape ih =>
    obtain rfl := h.position
    have hpass : looksAtA input c.position (· != last) = true := by
      rw [looksAtA_getD hlt]
      exact bne_iff_ne.mpr hlast
    rw [skipEscaped, dif_pos hpass, if_neg]
    · exact ih ((h.read hlt).advance 1)
    · intro hboth
      rw [looksAt_eq, looksAtA_getD hlt, Bool.and_eq_true, beq_iff_eq, decide_eq_true_eq] at hboth
      exact hescape hboth
  | case4 c hlt =>
    obtain rfl := h.position
    rw [skipEscaped, dif_neg]
    · exact h
    · exact fun hlook => hlt (looksAtA_lt input _ hlook)

theorem string_agrees (h : Follows input c pos) (quote : UInt8) :
    Agrees input (stringAt input quote c) (cssParseString input pos quote) := by
  obtain rfl := h.position
  have hstop := escaped_follows (h.advance 1) quote
  have hle : c.position + 1 ≤ skipEscaped input quote (c.position + 1) := le_skipEscaped quote _
  unfold stringAt cssParseString
  simp only [hstop.position]
  split_ifs with hend
  · exact ⟨rfl, hstop⟩
  · exact ⟨rfl, (hstop.copy hle (not_le.mp hend).le).advance 1⟩

theorem bareUrl_agrees (h : Follows input c pos) :
    Agrees input (bareUrlAt input c) (cssParseBareUrl input pos) := by
  obtain rfl := h.position
  have hstop := escaped_follows h (chr ')')
  have hle : c.position ≤ skipEscaped input (chr ')') c.position := le_skipEscaped (chr ')') _
  unfold bareUrlAt cssParseBareUrl
  simp only [hstop.position]
  split_ifs with hend
  · exact ⟨rfl, hstop⟩
  · exact ⟨rfl, hstop.copy hle (not_le.mp hend).le⟩

/-- The end of `css_parse_url`. -/
theorem urlEnd_agrees (h : Follows input c pos) (url : Option Str) :
    Agrees input
      (let stop := skip input isspace c
      let close := lookAt input (· == chr ')') stop.position stop
      if close.1 then (url, close.2.advance 1) else (none, close.2))
      (let stop := skipWhile input pos isspace
      if looksAt input stop (chr ')') then (url, stop + 1) else (none, stop)) := by
  have hstop := skip_follows h isspace
  simp only
  generalize skip input isspace c = stop at hstop ⊢
  generalize skipWhile input pos isspace = ends at hstop ⊢
  obtain rfl := hstop.position
  obtain ⟨hclose, hfollows⟩ := lookAt_agrees hstop (· == chr ')') stop.position
  rw [hclose, looksAt_eq]
  split_ifs
  · exact ⟨rfl, hfollows.advance 1⟩
  · exact ⟨rfl, hfollows⟩

theorem url_agrees (h : Follows input c pos) :
    Agrees input (urlAt input c) (cssParseUrl input pos) := by
  have hstart := skip_follows (h.advance 3) isspace
  unfold urlAt cssParseUrl
  simp only
  generalize skip input isspace (c.advance 3) = start at hstart ⊢
  generalize skipWhile input (pos + 3) isspace = begins at hstart ⊢
  obtain rfl := hstart.position
  obtain ⟨hquoted, hfollows⟩ := lookAt_agrees hstart isQuote start.position
  rw [hquoted]
  cases looksAtA input start.position isQuote with
  | false =>
    obtain ⟨hurl, hstop⟩ := bareUrl_agrees hfollows
    simp only [Bool.false_eq_true, if_false, Bool.not_false, Bool.true_and, hurl]
    cases (cssParseBareUrl input start.position).1.isNone with
    | true => exact ⟨hurl, hstop⟩
    | false => exact urlEnd_agrees hstop _
  | true =>
    obtain ⟨hurl, hstop⟩ := string_agrees hfollows (input.getD start.position 0)
    simp only [if_true, Bool.not_true, Bool.false_and, Bool.false_eq_true, if_false,
      ← List.getD_eq_getElem?_getD, hurl]
    exact urlEnd_agrees hstop _

theorem sign_follows (h : Follows input c pos) (hlt : pos < input.length) :
    Follows input (signAt input c)
      (if looksAt input pos (chr '+') || looksAt input pos (chr '-') then pos + 1 else pos) := by
  obtain rfl := h.position
  rw [looksAt_eq, looksAt_eq, ← looksAtA_or, looksAtA_getD hlt]
  unfold signAt isSign
  simp only
  split_ifs
  · exact (h.read hlt).advance 1
  · exact h.read hlt

theorem decimal_agrees (h : Follows input c pos) : Agrees input (decimalAt input c)
    (looksAt input pos (chr '.'),
      if looksAt input pos (chr '.') then skipWhile input (pos + 1) isdigit else pos) := by
  obtain rfl := h.position
  obtain ⟨hpoint, hfollows⟩ := lookAt_agrees h (· == chr '.') c.position
  rw [looksAt_eq]
  unfold decimalAt
  simp only [hpoint]
  refine ⟨rfl, ?_⟩
  simp only
  split_ifs
  · exact skip_follows (hfollows.advance 1) isdigit
  · exact hfollows

theorem exponent_agrees (h : Follows input c pos) : Agrees input (exponentAt input c)
    (looksAt input pos (chr 'e') || looksAt input pos (chr 'E'),
      if looksAt input pos (chr 'e') || looksAt input pos (chr 'E') then
        if looksAt input (pos + 1) (chr '+') || looksAt input (pos + 1) (chr '-') then
          skipWhile input (pos + 2) isdigit
        else skipWhile input (pos + 1) isdigit
      else pos) := by
  obtain rfl := h.position
  obtain ⟨hletter, hfollows⟩ := lookAt_agrees h isExponent c.position
  obtain ⟨hsign, hbehind⟩ := lookAt_agrees (hfollows.advance 1) isSign (c.position + 1)
  simp only [looksAt_eq, ← looksAtA_or]
  change Agrees input _ (looksAtA input c.position isExponent,
    if looksAtA input c.position isExponent then
      if looksAtA input (c.position + 1) isSign then _ else _
    else _)
  unfold exponentAt
  simp only [hletter, hsign]
  refine ⟨rfl, ?_⟩
  simp only
  split_ifs
  · exact skip_follows (hbehind.advance 1) isdigit
  · exact skip_follows hbehind isdigit
  · exact hfollows

/-- Digits are in the input. -/
theorem skipWhile_inside {start : ℕ} (h : start ≤ pos ∧ pos ≤ input.length)
    (f : UInt8 → Bool) : start ≤ skipWhile input pos f ∧ skipWhile input pos f ≤ input.length :=
  ⟨h.1.trans (le_skipWhile f), skipWhile_le f h.2⟩

theorem looksAt_lt (h : looksAt input pos ch = true) : pos < input.length := by
  rw [looksAt_eq] at h
  exact looksAtA_lt input pos h

/-- A number is in the input. -/
theorem parseNumber_inside (hlt : pos < input.length) :
    pos ≤ (cssParseNumber input pos).2 ∧ (cssParseNumber input pos).2 ≤ input.length := by
  have hsign : pos ≤ (if looksAt input pos (chr '+') || looksAt input pos (chr '-') then pos + 1
        else pos) ∧ (if looksAt input pos (chr '+') || looksAt input pos (chr '-') then pos + 1
        else pos) ≤ input.length := by
    split_ifs <;> omega
  unfold cssParseNumber
  simp only
  generalize (if looksAt input pos (chr '+') || looksAt input pos (chr '-') then pos + 1
    else pos) = sign at hsign ⊢
  have hwhole := skipWhile_inside hsign isdigit
  generalize skipWhile input sign isdigit = whole at hwhole ⊢
  have hdecimal : pos ≤ (if looksAt input whole (chr '.') then
        skipWhile input (whole + 1) isdigit else whole) ∧
      (if looksAt input whole (chr '.') then skipWhile input (whole + 1) isdigit else whole) ≤
        input.length := by
    split_ifs with hpoint
    · exact skipWhile_inside ⟨hwhole.1.trans (Nat.le_succ _), looksAt_lt hpoint⟩ isdigit
    · exact hwhole
  generalize (if looksAt input whole (chr '.') then skipWhile input (whole + 1) isdigit
    else whole) = decimal at hdecimal ⊢
  split_ifs with hletter hmark
  · have hlast : decimal + 1 < input.length := by
      rcases Bool.or_eq_true_iff.mp hmark with hmark | hmark <;> exact looksAt_lt hmark
    exact skipWhile_inside ⟨by omega, hlast⟩ isdigit
  · have hlast : decimal < input.length := by
      rcases Bool.or_eq_true_iff.mp hletter with hletter | hletter <;> exact looksAt_lt hletter
    exact skipWhile_inside ⟨by omega, hlast⟩ isdigit
  · exact hdecimal

theorem number_agrees (h : Follows input c pos) (hlt : pos < input.length) :
    Agrees input (numberAt input c) (cssParseNumber input pos) := by
  obtain rfl := h.position
  obtain ⟨hpoint, hdecimal⟩ := decimal_agrees (skip_follows (sign_follows h hlt) isdigit)
  obtain ⟨hletter, hexponent⟩ := exponent_agrees hdecimal
  obtain ⟨hle, hend⟩ := parseNumber_inside hlt
  refine ⟨?_, hexponent.copy hle hend⟩
  simp only [numberAt, cssParseNumber, hpoint, hletter, hexponent.position]

/-- The end of a comment. -/
theorem commentClose_agrees (h : Follows input c pos) (hlt : pos + 1 < input.length) :
    (wordAt input [chr '*', chr '/'] pos c).1 =
        (looksAt input pos (chr '*') && looksAt input (pos + 1) (chr '/')) ∧
      Follows input (wordAt input [chr '*', chr '/'] pos c).2 pos := by
  have hpos : pos < input.length := by omega
  rw [looksAt_eq, looksAtA_getD hpos, looksAt_eq, looksAtA_getD hlt]
  simp only [wordAt]
  split_ifs with hstar hslash
  · exact ⟨by rw [hstar, hslash]; rfl, (h.read hpos).read hlt⟩
  · refine ⟨?_, (h.read hpos).read hlt⟩
    rw [beq_false_of_ne hslash, Bool.and_false]
  · refine ⟨?_, h.read hpos⟩
    rw [beq_false_of_ne hstar, Bool.false_and]

/-- The loop over a comment. -/
theorem commentEnd_follows (h : Follows input c c.position) :
    Follows input (commentEndAt input c) (commentEnd input c.position) := by
  fun_induction commentEndAt input c with
  | case1 c hlt found hfound =>
    obtain ⟨hclose, hfollows⟩ := commentClose_agrees h hlt
    rw [commentEnd, if_pos hlt, ← hclose, if_pos hfound]
    exact hfollows
  | case2 c hlt found hfound ih =>
    obtain ⟨hclose, hfollows⟩ := commentClose_agrees h hlt
    rw [commentEnd, if_pos hlt, ← hclose, if_neg hfound]
    have hnext : Follows input (found.2.advance 1) (c.position + 1) := hfollows.advance 1
    rw [← hnext.position]
    exact ih hnext.here
  | case3 c hlt =>
    rw [commentEnd, if_neg hlt]
    exact h

/-- The start of a comment. -/
theorem commentStart_agrees (h : Follows input c pos) (hlt : pos < input.length) :
    (commentStartAt input (input.getD pos 0) c).1 =
        (looksAt input pos (chr '/') && looksAt input (pos + 1) (chr '*')) ∧
      Follows input (commentStartAt input (input.getD pos 0) c).2 pos := by
  obtain rfl := h.position
  obtain ⟨hstar, hfollows⟩ := lookAt_agrees h (· == chr '*') (c.position + 1)
  rw [looksAt_eq, looksAtA_getD hlt, looksAt_eq, ← hstar]
  unfold commentStartAt
  split_ifs with hslash
  · refine ⟨?_, hfollows⟩
    rw [hslash, beq_self_eq_true, Bool.true_and]
  · refine ⟨?_, h⟩
    rw [beq_false_of_ne hslash, Bool.false_and]

/-- The loop over spaces and comments. -/
theorem blank_follows (h : Follows input c c.position) :
    Follows input (blankAt input c) (skipBlank input c.position) := by
  fun_induction blankAt input c with
  | case1 c hlt ch hspace ih =>
    rw [skipBlank, dif_pos hlt, looksAtA_getD hlt, if_pos hspace]
    exact ih ((h.read hlt).advance 1)
  | case2 c hlt ch comment hspace hcomment ih =>
    obtain ⟨hstart, hfollows⟩ := commentStart_agrees (h.read hlt) hlt
    rw [skipBlank, dif_pos hlt, looksAtA_getD hlt, if_neg hspace, ← hstart, if_pos hcomment]
    have hbegin : Follows input (comment.2.advance 2) (c.position + 2) := hfollows.advance 2
    have hend := commentEnd_follows hbegin.here
    rw [hbegin.position] at hend
    have hnext := hend.advance 2
    rw [← hnext.position]
    exact ih hnext.here
  | case3 c hlt ch comment hspace hcomment =>
    obtain ⟨hstart, hfollows⟩ := commentStart_agrees (h.read hlt) hlt
    rw [skipBlank, dif_pos hlt, looksAtA_getD hlt, if_neg hspace, ← hstart, if_neg hcomment]
    exact hfollows
  | case4 c hlt =>
    rw [skipBlank, dif_neg hlt]
    exact h

theorem tokenOr_agrees {found : Option Str × Cursor} {found' : Option Str × ℕ}
    (h : Agrees input found found') (pos : ℕ) (type : CssTokenType) (ch : UInt8) :
    Agrees input (tokenOrAt pos type ch found) (tokenOr pos type ch found') := by
  obtain ⟨value, c⟩ := found
  obtain ⟨value', stop⟩ := found'
  obtain ⟨hvalue, hstop⟩ := h
  obtain rfl : value = value' := hvalue
  cases value with
  | none => exact ⟨rfl, hstop.advance 1⟩
  | some value => exact ⟨rfl, hstop⟩

theorem hash_agrees (h : Follows input c pos) : Agrees input (hashAt input c)
    (if skipWhile input pos isxdigit = pos then (none, pos)
      else (some (slice input pos (skipWhile input pos isxdigit)),
        skipWhile input pos isxdigit)) := by
  obtain rfl := h.position
  obtain ⟨hdigit, hfollows⟩ := lookAt_agrees h isxdigit c.position
  have hstop := skip_follows hfollows isxdigit
  unfold hashAt
  simp only [hdigit, hstop.position]
  by_cases hlook : looksAtA input c.position isxdigit = true
  · have hlt : c.position < input.length := looksAtA_lt input _ hlook
    have hgo : c.position + 1 ≤ skipWhile input c.position isxdigit := by
      rw [skipWhile_eq, if_pos hlook]
      exact le_skipWhile isxdigit
    rw [if_pos hlook, if_neg (by omega)]
    exact ⟨rfl, hstop.copy (by omega) (skipWhile_le isxdigit hlt.le)⟩
  · have hstay : skipWhile input c.position isxdigit = c.position := by
      rw [skipWhile_eq, if_neg hlook]
    rw [if_neg hlook, if_pos hstay]
    exact ⟨rfl, hfollows⟩

theorem length_of_sameCase {a b : Str} (h : sameCase a b = true) : a.length = b.length := by
  have hlength := congrArg List.length (beq_iff_eq.mp h)
  rwa [List.length_map, List.length_map] at hlength

theorem urlStart_agrees (h : Follows input c pos) :
    (urlStartAt input c).1 = sameCase (slice input pos (pos + 4)) (str "url(") ∧
      Follows input (urlStartAt input c).2 pos := by
  obtain rfl := h.position
  unfold urlStartAt
  split_ifs with hlt
  · exact ⟨rfl, h.readRange (by omega)⟩
  · refine ⟨(Bool.eq_false_iff.mpr fun hsame => hlt ?_).symm, h⟩
    have hlength : (slice input c.position (c.position + 4)).length = 4 := length_of_sameCase hsame
    rw [slice, List.length_take, List.length_drop] at hlength
    omega

theorem longToken_agrees (numbers : NumberReader) (h : Follows input c pos)
    (hlt : pos < input.length) (ch : UInt8) :
    Agrees input (longTokenAt input numbers ch c) (longToken input pos numbers ch) := by
  obtain rfl := h.position
  obtain ⟨hdigit, hbehind⟩ := lookAt_agrees h isdigit (c.position + 1)
  obtain ⟨hurl, hword⟩ := urlStart_agrees h
  have hhash := tokenOr_agrees (hash_agrees (h.advance 1)) c.position .hash ch
  unfold longTokenAt longToken
  simp only [hdigit, hurl]
  split_ifs with _ _ _ hnone
  · exact ⟨rfl, h.advance 1⟩
  · exact tokenOr_agrees (ident_agrees (h.advance 1)) c.position .atKeyword ch
  · rwa [if_pos hnone] at hhash
  · rwa [if_neg hnone] at hhash
  · exact number_agrees hbehind hlt
  · exact ⟨rfl, hbehind.advance 1⟩
  · exact ⟨rfl, rfl, h.reads⟩
  · exact tokenOr_agrees (string_agrees h ch) c.position .string ch
  · exact tokenOr_agrees (url_agrees hword) c.position .url ch
  · exact tokenOr_agrees (ident_agrees hword) c.position .ident ch
  · exact tokenOr_agrees (ident_agrees h) c.position .ident ch
  · exact ⟨rfl, h.advance 1⟩

theorem doubleToken_none (h : isPairStart ch = false) (d : UInt8) : doubleToken ch d = none := by
  simp only [isPairStart, Bool.or_eq_false_iff, beq_eq_false_iff_ne] at h
  simp [doubleToken, h]

theorem pair_agrees (h : Follows input c pos) (ch : UInt8) :
    (pairAt input ch c).1 = input[pos + 1]?.bind (doubleToken ch) ∧
      Follows input (pairAt input ch c).2 pos := by
  obtain rfl := h.position
  unfold pairAt
  split_ifs with hpair
  · refine ⟨?_, h.read hpair.2⟩
    rw [List.getD_eq_getElem?_getD, List.getElem?_eq_getElem hpair.2, Option.getD_some,
      Option.bind_some]
  · refine ⟨(Option.bind_eq_none_iff.mpr fun d hd => ?_).symm, h⟩
    apply doubleToken_none
    by_contra hstart
    have hlt : c.position + 1 < input.length := (List.getElem?_eq_some_iff.mp hd).1
    exact hpair ⟨Bool.not_eq_false _ ▸ hstart, hlt⟩

theorem token_agrees (numbers : NumberReader) (h : Follows input c pos)
    (hlt : pos < input.length) (ch : UInt8) :
    Agrees input (tokenAt input numbers ch c) (cssToken input pos numbers ch) := by
  obtain ⟨hpair, hfollows⟩ := pair_agrees h ch
  unfold tokenAt cssToken
  cases singleToken ch with
  | some type => exact ⟨congrArg (CssToken.mk type none) h.position, h.advance 1⟩
  | none =>
    simp only [← hpair]
    generalize pairAt input ch c = pair at hfollows ⊢
    obtain ⟨type, stop⟩ := pair
    cases type with
    | some type => exact ⟨congrArg (CssToken.mk type none) hfollows.position, hfollows.advance 2⟩
    | none => exact longToken_agrees numbers hfollows hlt ch

/-- **The functions** find the same, and read nothing behind the input. -/
theorem nextTokenAt_agrees (numbers : NumberReader) (h : Follows input c pos) :
    Agrees input (nextTokenAt input numbers c) (cssNextToken input pos numbers) := by
  obtain rfl := h.position
  have hblank := blank_follows h
  unfold nextTokenAt cssNextToken
  split_ifs with hend
  · exact ⟨rfl, h⟩
  · simp only
    generalize blankAt input c = start at hblank ⊢
    generalize skipBlank input c.position = begins at hblank ⊢
    obtain rfl := hblank.position
    split_ifs with hstart
    · rw [List.getElem?_eq_none hstart]
      exact ⟨rfl, hblank⟩
    · have hlt : start.position < input.length := not_le.mp hstart
      have hch : input[start.position]? = some (input.getD start.position 0) := by
        rw [List.getD_eq_getElem?_getD, List.getElem?_eq_getElem hlt, Option.getD_some]
      obtain ⟨htoken, hstop⟩ :=
        token_agrees numbers (hblank.read hlt) hlt (input.getD start.position 0)
      rw [hch]
      exact ⟨congrArg some htoken, hstop⟩

end

end PrismaticOS.Css
