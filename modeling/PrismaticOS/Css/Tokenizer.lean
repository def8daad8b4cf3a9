import Mathlib.Order.Nat
import PrismaticOS.Libc.Ctype

/-!
# The CSS tokenizer

The functions of `html/src/css/css_parser.c` from `css_parse_ident` to `css_parse_number`.

## The model

A function takes the input and a position and returns what it found and the position after it.
A position may be after the end: an unended comment, or a string or a URL that the end of the
input cuts off, puts it there. A token has its type, its text, if it has one, and its
`offset`. The line and the column, which never change, and the length of the text are left out,
as is the number that `css_parse_number` converts the text to. Allocations succeed.

`css_parse_number_or_ident` is in no file. It is a parameter, a `NumberReader`: it goes on by
one character at least, and not past the end.
-/

namespace PrismaticOS.Css

open PrismaticOS.Libc

/-- `css_token_type_t`, but for the types that no function makes. -/
inductive CssTokenType where
  /-- `CSS_TOKEN_IDENT`. -/
  | ident
  /-- `CSS_TOKEN_AT_KEYWORD`. -/
  | atKeyword
  /-- `CSS_TOKEN_STRING`. -/
  | string
  /-- `CSS_TOKEN_HASH`. -/
  | hash
  /-- `CSS_TOKEN_NUMBER`. -/
  | number
  /-- `CSS_TOKEN_INTEGER`. -/
  | integer
  /-- `CSS_TOKEN_PERCENTAGE`. -/
  | percentage
  /-- `CSS_TOKEN_DIMENSION`. -/
  | dimension
  /-- `CSS_TOKEN_URL`. -/
  | url
  /-- `CSS_TOKEN_DELIM`. -/
  | delim
  /-- `CSS_TOKEN_COLON`. -/
  | colon
  /-- `CSS_TOKEN_SEMICOLON`. -/
  | semicolon
  /-- `CSS_TOKEN_COMMA`. -/
  | comma
  /-- `CSS_TOKEN_LEFT_BRACKET`. -/
  | leftBracket
  /-- `CSS_TOKEN_RIGHT_BRACKET`. -/
  | rightBracket
  /-- `CSS_TOKEN_LEFT_PAREN`. -/
  | leftParen
  /-- `CSS_TOKEN_RIGHT_PAREN`. -/
  | rightParen
  /-- `CSS_TOKEN_LEFT_BRACE`. -/
  | leftBrace
  /-- `CSS_TOKEN_RIGHT_BRACE`. -/
  | rightBrace
  /-- `CSS_TOKEN_INCLUDE_MATCH`. -/
  | includeMatch
  /-- `CSS_TOKEN_DASH_MATCH`. -/
  | dashMatch
  /-- `CSS_TOKEN_PREFIX_MATCH`. -/
  | prefixMatch
  /-- `CSS_TOKEN_SUFFIX_MATCH`. -/
  | suffixMatch
  /-- `CSS_TOKEN_SUBSTRING_MATCH`. -/
  | substringMatch
  /-- `CSS_TOKEN_COLUMN`. -/
  | column
  deriving DecidableEq

/-- A `css_token_t`. -/
structure CssToken where
  /-- What it is. -/
  type : CssTokenType
  /-- Its text. -/
  value : Option Str
  /-- Where it begins. -/
  offset : ℕ
  deriving DecidableEq

/-- A `css_parse_number_or_ident`: the token at a position, and the position after it. -/
structure NumberReader where
  /-- The function. -/
  read : Str → ℕ → CssToken × ℕ
  /-- It goes on. -/
  forward : ∀ input pos, pos < (read input pos).2
  /-- It does not go past the end. -/
  within : ∀ input pos, pos < input.length → (read input pos).2 ≤ input.length

/-- The characters an identifier may begin with. -/
def isIdentStart (c : UInt8) : Bool := isalpha c || c == chr '-' || c == chr '_' || c == chr '\\'

/-- The characters of an identifier. -/
def isIdentChar (c : UInt8) : Bool := isalnum c || c == chr '-' || c == chr '_' || c == chr '\\'

/-- `isxdigit`. -/
def isxdigit (c : UInt8) : Bool :=
  isdigit c || (chr 'A' ≤ c && c ≤ chr 'F') || (chr 'a' ≤ c && c ≤ chr 'f')

/-- The quotes. -/
def isQuote (c : UInt8) : Bool := c == chr '"' || c == chr '\''

section
variable (input : Str) (pos : ℕ)

/-- The part of the input between two positions. -/
def slice (stop : ℕ) : Str := (input.drop pos).take (stop - pos)

/-- A loop over the characters of a kind. -/
def skipWhile (f : UInt8 → Bool) : ℕ := pos + ((input.drop pos).takeWhile f).length

/-- The next character is `c`. -/
def looksAt (c : UInt8) : Bool := input[pos]? == some c

/-- The next character is of a kind. -/
def looksAtA (f : UInt8 → Bool) : Bool := input[pos]?.any f

theorem looksAtA_lt {f : UInt8 → Bool} (h : looksAtA input pos f = true) : pos < input.length := by
  unfold looksAtA at h
  by_contra hlong
  rw [List.getElem?_eq_none (not_lt.mp hlong)] at h
  cases h

/-- `css_parse_ident`. -/
def cssParseIdent : Option Str × ℕ :=
  if looksAtA input pos isIdentStart then
    (some (slice input pos (skipWhile input (pos + 1) isIdentChar)),
      skipWhile input (pos + 1) isIdentChar)
  else (none, pos)

/-- The loop of `css_parse_string` and of `css_parse_url` up to the character `stop`: a
character after a backslash is passed with it. -/
def skipEscaped (stop : UInt8) (pos : ℕ) : ℕ :=
  if h : looksAtA input pos (· != stop) then
    have := looksAtA_lt input pos h
    if looksAt input pos (chr '\\') && pos + 1 < input.length then skipEscaped stop (pos + 2)
    else skipEscaped stop (pos + 1)
  else pos
termination_by input.length - pos

/-- `css_parse_string`, at the quote. -/
def cssParseString (quote : UInt8) : Option Str × ℕ :=
  let stop := skipEscaped input quote (pos + 1)
  if input.length ≤ stop then (none, stop) else (some (slice input (pos + 1) stop), stop + 1)

/-- The part of `css_parse_url` without a quote. -/
def cssParseBareUrl : Option Str × ℕ :=
  let stop := skipEscaped input (chr ')') pos
  if input.length ≤ stop then (none, stop) else (some (slice input pos stop), stop)

/-- `css_parse_url`. The position goes on by three, so that the parenthesis is read as a part of
the URL. -/
def cssParseUrl : Option Str × ℕ :=
  let start := skipWhile input (pos + 3) isspace
  let quoted := looksAtA input start isQuote
  let url := if quoted then cssParseString input start (input[start]?.getD 0)
    else cssParseBareUrl input start
  if !quoted && url.1.isNone then url
  else
    let stop := skipWhile input url.2 isspace
    if looksAt input stop (chr ')') then (url.1, stop + 1) else (none, stop)

/-- `css_parse_number`. -/
def cssParseNumber : CssToken × ℕ :=
  let sign := if looksAt input pos (chr '+') || looksAt input pos (chr '-') then pos + 1 else pos
  let whole := skipWhile input sign isdigit
  let hasDecimal := looksAt input whole (chr '.')
  let decimal := if hasDecimal then skipWhile input (whole + 1) isdigit else whole
  let hasExponent := looksAt input decimal (chr 'e') || looksAt input decimal (chr 'E')
  let exponent :=
    if hasExponent then
      if looksAt input (decimal + 1) (chr '+') || looksAt input (decimal + 1) (chr '-') then
        skipWhile input (decimal + 2) isdigit
      else skipWhile input (decimal + 1) isdigit
    else decimal
  (⟨if hasDecimal || hasExponent then .number else .integer, some (slice input pos exponent), pos⟩,
    exponent)

/-- The loop over a comment up to the `*/`, or to the last character. -/
def commentEnd (pos : ℕ) : ℕ :=
  if pos + 1 < input.length then
    if looksAt input pos (chr '*') && looksAt input (pos + 1) (chr '/') then pos
    else commentEnd (pos + 1)
  else pos
termination_by input.length - pos

theorem le_commentEnd (pos : ℕ) : pos ≤ commentEnd input pos := by
  fun_induction commentEnd input pos with
  | case1 pos hlt hend => exact le_rfl
  | case2 pos hlt hend ih => exact le_trans (Nat.le_succ pos) ih
  | case3 pos hlt => exact le_rfl

/-- The loop of `css_next_token` over spaces and comments. -/
def skipBlank (pos : ℕ) : ℕ :=
  if h : pos < input.length then
    if looksAtA input pos isspace then skipBlank (pos + 1)
    else if looksAt input pos (chr '/') && looksAt input (pos + 1) (chr '*') then
      have := le_commentEnd input (pos + 2)
      skipBlank (commentEnd input (pos + 2) + 2)
    else pos
  else pos
termination_by input.length - pos

/-- The tokens of one character. -/
def singleToken (c : UInt8) : Option CssTokenType :=
  if c = chr ':' then some .colon
  else if c = chr ';' then some .semicolon
  else if c = chr ',' then some .comma
  else if c = chr '(' then some .leftParen
  else if c = chr ')' then some .rightParen
  else if c = chr '[' then some .leftBracket
  else if c = chr ']' then some .rightBracket
  else if c = chr '{' then some .leftBrace
  else if c = chr '}' then some .rightBrace
  else none

/-- The tokens of two characters. -/
def doubleToken (c d : UInt8) : Option CssTokenType :=
  if c = chr '~' ∧ d = chr '=' then some .includeMatch
  else if c = chr '|' ∧ d = chr '=' then some .dashMatch
  else if c = chr '|' ∧ d = chr '|' then some .column
  else if c = chr '^' ∧ d = chr '=' then some .prefixMatch
  else if c = chr '$' ∧ d = chr '=' then some .suffixMatch
  else if c = chr '*' ∧ d = chr '=' then some .substringMatch
  else none

/-- The end of `css_next_token`: the character `c` where the token began is its text, and the
character at the position is passed. -/
def fallback (offset : ℕ) (c : UInt8) : CssToken × ℕ := (⟨.delim, some [c], offset⟩, pos + 1)

/-- A token that one of the functions above read, if it read one. -/
def tokenOr (type : CssTokenType) (c : UInt8) (found : Option Str × ℕ) : CssToken × ℕ :=
  match found with
  | (some value, stop) => (⟨type, some value, pos⟩, stop)
  | (none, stop) => fallback stop pos c

/-- The part of `css_next_token` for tokens of several characters. -/
def longToken (numbers : NumberReader) (c : UInt8) : CssToken × ℕ :=
  if c = chr '*' then fallback pos pos c
  else if c = chr '@' then tokenOr pos .atKeyword c (cssParseIdent input (pos + 1))
  else if c = chr '#' then
    let stop := skipWhile input (pos + 1) isxdigit
    tokenOr pos .hash c
      (if stop = pos + 1 then (none, pos + 1) else (some (slice input (pos + 1) stop), stop))
  else if c = chr '.' then
    if looksAtA input (pos + 1) isdigit then cssParseNumber input pos else fallback pos pos c
  else if c = chr '-' ∨ isdigit c then numbers.read input pos
  else if isQuote c then tokenOr pos .string c (cssParseString input pos c)
  else if c = chr 'u' ∨ c = chr 'U' then
    if sameCase (slice input pos (pos + 4)) (str "url(") then
      tokenOr pos .url c (cssParseUrl input pos)
    else tokenOr pos .ident c (cssParseIdent input pos)
  else if isalpha c || c == chr '_' then tokenOr pos .ident c (cssParseIdent input pos)
  else fallback pos pos c

/-- The part of `css_next_token` at the first character `c` of a token. -/
def cssToken (numbers : NumberReader) (c : UInt8) : CssToken × ℕ :=
  match singleToken c with
  | some type => (⟨type, none, pos⟩, pos + 1)
  | none =>
    match input[pos + 1]?.bind (doubleToken c) with
    | some type => (⟨type, none, pos⟩, pos + 2)
    | none => longToken input pos numbers c

/-- `css_next_token`. -/
def cssNextToken (numbers : NumberReader) : Option CssToken × ℕ :=
  if input.length ≤ pos then (none, pos)
  else
    match input[skipBlank input pos]? with
    | none => (none, skipBlank input pos)
    | some c =>
      (some (cssToken input (skipBlank input pos) numbers c).1,
        (cssToken input (skipBlank input pos) numbers c).2)

end

/-! ### Going on -/

section
variable {input : Str} {pos : ℕ}

theorem le_skipWhile (f : UInt8 → Bool) : pos ≤ skipWhile input pos f := Nat.le_add_right ..

theorem le_skipEscaped (stop : UInt8) (pos : ℕ) : pos ≤ skipEscaped input stop pos := by
  fun_induction skipEscaped input stop pos with
  | case1 pos h hlt hescape ih => omega
  | case2 pos h hlt hescape ih => omega
  | case3 pos h => exact le_rfl

theorem le_skipBlank (pos : ℕ) : pos ≤ skipBlank input pos := by
  fun_induction skipBlank input pos with
  | case1 pos h hspace ih => omega
  | case2 pos h hspace hcomment hend ih => omega
  | case3 pos h hspace hcomment => exact le_rfl
  | case4 pos h => exact le_rfl

theorem le_parseIdent : pos ≤ (cssParseIdent input pos).2 := by
  unfold cssParseIdent
  split
  · exact le_trans (Nat.le_succ pos) (le_skipWhile _)
  · exact le_rfl

theorem parseIdent_lt (h : (cssParseIdent input pos).1.isSome) :
    pos < (cssParseIdent input pos).2 := by
  unfold cssParseIdent at h ⊢
  split
  · exact lt_of_lt_of_le (Nat.lt_succ_self pos) (le_skipWhile _)
  · rename_i hno
    rw [if_neg hno] at h
    cases h

theorem parseString_lt (quote : UInt8) : pos < (cssParseString input pos quote).2 := by
  have hstop : pos + 1 ≤ skipEscaped input quote (pos + 1) := le_skipEscaped quote (pos + 1)
  unfold cssParseString
  simp only
  split
  · exact hstop
  · exact Nat.lt_succ_of_le (le_trans (Nat.le_succ pos) hstop)

theorem le_parseBareUrl : pos ≤ (cssParseBareUrl input pos).2 := by
  have hstop : pos ≤ skipEscaped input (chr ')') pos := le_skipEscaped (chr ')') pos
  unfold cssParseBareUrl
  simp only
  split
  · exact hstop
  · exact hstop

theorem parseUrl_lt : pos < (cssParseUrl input pos).2 := by
  have hblank : pos < skipWhile input (pos + 3) isspace :=
    lt_of_lt_of_le (by omega) (le_skipWhile isspace)
  unfold cssParseUrl
  simp only
  generalize skipWhile input (pos + 3) isspace = start at hblank ⊢
  generalize looksAtA input start isQuote = quoted
  have hurl : start ≤ (if quoted = true then cssParseString input start (input[start]?.getD 0)
      else cssParseBareUrl input start).2 := by
    split
    · exact le_of_lt (parseString_lt _)
    · exact le_parseBareUrl
  generalize (if quoted = true then cssParseString input start (input[start]?.getD 0)
      else cssParseBareUrl input start) = url at hurl ⊢
  have hend : url.2 ≤ skipWhile input url.2 isspace := le_skipWhile isspace
  split
  · exact lt_of_lt_of_le hblank hurl
  · split
    · exact lt_of_lt_of_le hblank (le_trans hurl (le_trans hend (Nat.le_succ _)))
    · exact lt_of_lt_of_le hblank (le_trans hurl hend)

theorem parseNumber_lt (h : looksAt input pos (chr '.') = true) :
    pos < (cssParseNumber input pos).2 := by
  have hnext : input[pos]? = some (chr '.') := beq_iff_eq.mp h
  have hplus : looksAt input pos (chr '+') = false := by
    rw [looksAt, hnext]
    decide
  have hminus : looksAt input pos (chr '-') = false := by
    rw [looksAt, hnext]
    decide
  have hwhole : skipWhile input pos isdigit = pos := by
    have hhead : (input.drop pos).head? = some (chr '.') := by rw [List.head?_drop, hnext]
    cases hdrop : input.drop pos with
    | nil =>
      rw [hdrop] at hhead
      cases hhead
    | cons c r =>
      rw [hdrop] at hhead
      cases hhead
      rw [skipWhile, hdrop, List.takeWhile_cons_of_neg (by decide)]
      rfl
  unfold cssParseNumber
  simp only [hplus, hminus, Bool.or_self, if_false, hwhole, h, if_true, Bool.false_eq_true]
  have hdecimal : pos < skipWhile input (pos + 1) isdigit :=
    lt_of_lt_of_le (Nat.lt_succ_self pos) (le_skipWhile _)
  generalize skipWhile input (pos + 1) isdigit = decimal at hdecimal ⊢
  split
  · split
    · exact lt_of_lt_of_le (by omega) (le_skipWhile _)
    · exact lt_of_lt_of_le (by omega) (le_skipWhile _)
  · exact hdecimal

theorem tokenOr_lt {type : CssTokenType} {c : UInt8} {found : Option Str × ℕ}
    (hle : pos ≤ found.2) (hlt : found.1.isSome → pos < found.2) :
    pos < (tokenOr pos type c found).2 := by
  obtain ⟨value, stop⟩ := found
  cases value with
  | none => exact Nat.lt_succ_of_le hle
  | some value => exact hlt rfl

theorem tokenOr_lt_of_lt {type : CssTokenType} {c : UInt8} {found : Option Str × ℕ}
    (hlt : pos < found.2) : pos < (tokenOr pos type c found).2 :=
  tokenOr_lt (le_of_lt hlt) fun _ => hlt

theorem longToken_lt (numbers : NumberReader) {c : UInt8} (h : input[pos]? = some c) :
    pos < (longToken input pos numbers c).2 := by
  have hident : pos < (tokenOr pos .ident c (cssParseIdent input pos)).2 :=
    tokenOr_lt le_parseIdent parseIdent_lt
  have hfall : pos < (fallback pos pos c).2 := Nat.lt_succ_self pos
  unfold longToken
  split_ifs with hstar hat hhash hdot hdigit hnumber hquote hu hurl halpha
  · exact hfall
  · exact tokenOr_lt_of_lt (lt_of_lt_of_le (Nat.lt_succ_self pos) le_parseIdent)
  · apply tokenOr_lt_of_lt
    split
    · exact Nat.lt_succ_self pos
    · exact lt_of_lt_of_le (Nat.lt_succ_self pos) (le_skipWhile _)
  · apply parseNumber_lt
    rw [looksAt, h, hdot]
    exact beq_self_eq_true _
  · exact hfall
  · exact numbers.forward input pos
  · exact tokenOr_lt_of_lt (parseString_lt c)
  · exact tokenOr_lt_of_lt parseUrl_lt
  · exact hident
  · exact hident
  · exact hfall

/-- **Every token** goes on. -/
theorem nextToken_lt (numbers : NumberReader) {token : CssToken} {stop : ℕ}
    (h : cssNextToken input pos numbers = (some token, stop)) :
    pos < stop ∧ pos < input.length := by
  unfold cssNextToken at h
  split at h
  · cases h
  · rename_i hpos
    refine ⟨?_, not_le.mp hpos⟩
    split at h
    · cases h
    · rename_i c hc
      cases h
      apply lt_of_le_of_lt (le_skipBlank pos)
      unfold cssToken
      split
      · exact Nat.lt_succ_self _
      · split
        · exact Nat.lt_add_of_pos_right (by decide)
        · exact longToken_lt numbers hc

end

end PrismaticOS.Css
