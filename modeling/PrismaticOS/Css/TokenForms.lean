import Mathlib.Data.List.TakeWhile
import PrismaticOS.Css.Stylesheets

/-!
# Hashes, delimiters and URLs

What `css_next_token` makes of a `#` and a name, of a character that no token begins with, and of a
URL.

## The model

`css_parse_number_or_ident`, which is in no file, is to read an identifier or a number
(`NumberReader.Texts`).

## What is proved

* `hash_name_iff` — a `#` and a name are one token exactly if the characters of the name are
  hexadecimal digits.
* `delim_iff` — a delimiter takes one character exactly if none of the functions for longer tokens
  was tried.
* `url_never` — no URL is read without the parenthesis in front of it.
-/

namespace PrismaticOS.Css

open PrismaticOS.Libc

variable {numbers : NumberReader} {input before name rest r : Str} {pos stop : ℕ} {c : UInt8}
  {token : CssToken}

/-- A token at a position, and the position after it. -/
def TokenAt (numbers : NumberReader) (input : Str) (pos : ℕ) (type : CssTokenType) (value : Str)
    (stop : ℕ) : Prop :=
  ∃ token, cssNextToken input pos numbers = (some token, stop) ∧ token.type = type ∧
    token.value = some value

theorem noGap_isspace : ∀ b ∈ ([] : Str), isspace b = true := fun _ hb => absurd hb List.not_mem_nil

/-- A character that is neither a space nor a slash is not skipped. -/
theorem skipBlank_of_drop (h : input.drop pos = c :: r) (hspace : isspace c = false)
    (hslash : c ≠ chr '/') : skipBlank input pos = pos := by
  apply skipBlank_gap noGap_isspace _ h
  intro b hb
  cases hb
  exact ⟨hspace, hslash⟩

/-- It begins a token. -/
theorem nextToken_of_drop (h : input.drop pos = c :: r) (hspace : isspace c = false)
    (hslash : c ≠ chr '/') : cssNextToken input pos numbers =
      (some (cssToken input pos numbers c).1, (cssToken input pos numbers c).2) :=
  nextToken_gap noGap_isspace ⟨hspace, hslash⟩ h

/-- A token that is no mark. -/
theorem cssToken_long (hsingle : singleToken c = none) (hdouble : ∀ d, doubleToken c d = none) :
    cssToken input pos numbers c = longToken input pos numbers c := by
  have hnone : input[pos + 1]?.bind (doubleToken c) = none := by
    cases input[pos + 1]? with
    | none => rfl
    | some d => exact hdouble d
  rw [cssToken, hsingle]
  simp only [hnone]

/-! ### Hashes -/

/-- The characters that a name may begin with. -/
def isNameStart (c : UInt8) : Bool := isalpha c || c == chr '_'

/-- The characters of a name. -/
def isNameChar (c : UInt8) : Bool := isalnum c || c == chr '-' || c == chr '_'

/-- A name. -/
structure IsName (name : Str) : Prop where
  /-- It begins with a letter or an underscore. -/
  start : ∃ c t, name = c :: t ∧ isNameStart c = true
  /-- It has letters, digits, hyphens and underscores. -/
  chars : ∀ c ∈ name, isNameChar c = true

/-- The token at a `#`. -/
theorem longToken_hash (h : input.drop pos = chr '#' :: r) :
    longToken input pos numbers (chr '#') =
      if r.takeWhile isxdigit = [] then fallback (pos + 1) pos (chr '#')
      else (⟨.hash, some (r.takeWhile isxdigit), pos⟩,
        pos + 1 + (r.takeWhile isxdigit).length) := by
  have hstop : skipWhile input (pos + 1) isxdigit = pos + 1 + (r.takeWhile isxdigit).length := by
    rw [skipWhile, drop_succ h]
  have hslice : slice input (pos + 1) (pos + 1 + (r.takeWhile isxdigit).length) =
      r.takeWhile isxdigit := by
    rw [slice, drop_succ h, Nat.add_sub_cancel_left]
    exact List.prefix_iff_eq_take.mp (List.takeWhile_prefix isxdigit) |>.symm
  rw [longToken, if_neg (by decide), if_neg (by decide), if_pos rfl]
  simp only [hstop, hslice]
  by_cases hnone : r.takeWhile isxdigit = []
  · simp only [hnone, List.length_nil, Nat.add_zero, if_true]
    rfl
  · have hlength : (r.takeWhile isxdigit).length ≠ 0 := fun h₀ =>
      hnone (List.eq_nil_of_length_eq_zero h₀)
    rw [if_neg (by omega), if_neg hnone]
    rfl

theorem isNameChar_of_isxdigit (h : isxdigit c = true) : isNameChar c = true := by
  have h0 : (chr '0').toNat = 48 := rfl
  have h9 : (chr '9').toNat = 57 := rfl
  have hA : (chr 'A').toNat = 65 := rfl
  have hF : (chr 'F').toNat = 70 := rfl
  have hZ : (chr 'Z').toNat = 90 := rfl
  have ha : (chr 'a').toNat = 97 := rfl
  have hf : (chr 'f').toNat = 102 := rfl
  have hz : (chr 'z').toNat = 122 := rfl
  simp only [isxdigit, isNameChar, isalnum, isalpha, isupper, islower, isdigit, Bool.or_eq_true,
    Bool.and_eq_true, decide_eq_true_eq, UInt8.le_iff_toNat_le] at *
  omega

/-- A hash is a token with the hexadecimal digits behind it, if there are some. -/
theorem nextToken_hash (numbers : NumberReader) (h : input.drop pos = chr '#' :: r) :
    cssNextToken input pos numbers =
      if r.takeWhile isxdigit = [] then (some ⟨.delim, some [chr '#'], pos⟩, pos + 1 + 1)
      else (some ⟨.hash, some (r.takeWhile isxdigit), pos⟩,
        pos + 1 + (r.takeWhile isxdigit).length) := by
  have hdouble : ∀ d, doubleToken (chr '#') d = none := by
    intro d
    simp [doubleToken, chr]
  rw [nextToken_of_drop h (by decide) (by decide), cssToken_long (by decide) hdouble,
    longToken_hash h]
  split_ifs <;> rfl

/-- **A hash and a name** are one token exactly if the name has hexadecimal digits only. -/
theorem hash_name_iff (numbers : NumberReader) (before : Str) (hname : IsName name)
    (hrest : ∀ c, rest.head? = some c → isNameChar c = false) :
    TokenAt numbers (before ++ chr '#' :: (name ++ rest)) before.length .hash name
        (before.length + 1 + name.length) ↔ ∀ c ∈ name, isxdigit c = true := by
  have hdrop : (before ++ chr '#' :: (name ++ rest)).drop before.length =
      chr '#' :: (name ++ rest) := List.drop_left
  have hnext := nextToken_hash numbers hdrop
  constructor
  · rintro ⟨token, htoken, htype, hvalue⟩
    rw [hnext] at htoken
    split_ifs at htoken with hnone
    · obtain rfl := Option.some.inj (Prod.mk.inj htoken).1
      cases htype
    · obtain rfl := Option.some.inj (Prod.mk.inj htoken).1
      have hdigits := Option.some.inj hvalue
      intro c hc
      exact List.mem_takeWhile_imp (hdigits.symm ▸ hc)
  · intro hdigits
    have htake : (name ++ rest).takeWhile isxdigit = name := by
      apply takeWhile_to hdigits
      intro b hb
      by_contra hdigit
      have hchar := isNameChar_of_isxdigit (Bool.not_eq_false _ ▸ hdigit)
      rw [hrest b hb] at hchar
      cases hchar
    obtain ⟨c, t, hcons, -⟩ := hname.start
    rw [htake, if_neg (by simp [hcons])] at hnext
    exact ⟨_, hnext, rfl, rfl⟩

/-- The name `add` is a token with its hash. -/
theorem hash_name_add :
    TokenAt oneCharacter (str "a" ++ chr '#' :: (str "add" ++ str " b")) (str "a").length .hash
      (str "add") ((str "a").length + 1 + (str "add").length) ↔
        ∀ c ∈ str "add", isxdigit c = true :=
  hash_name_iff oneCharacter (str "a")
    ⟨⟨chr 'a', str "dd", rfl, rfl⟩, List.all_eq_true.mp (by decide)⟩
    (by simp [str, isNameChar, isalnum, isalpha, isupper, islower, isdigit, chr])

/-- The name `header` is not: the `h` is lost. -/
theorem hash_header : ¬ ∀ (numbers : NumberReader) (before name rest : Str), IsName name →
    (∀ c, rest.head? = some c → isNameChar c = false) →
      TokenAt numbers (before ++ chr '#' :: (name ++ rest)) before.length .hash name
        (before.length + 1 + name.length) := by
  intro h
  have hname : IsName (str "header") :=
    ⟨⟨chr 'h', str "eader", rfl, rfl⟩, List.all_eq_true.mp (by decide)⟩
  obtain ⟨token, htoken, htype, -⟩ :=
    h oneCharacter [] (str "header") [] hname (fun c hc => by cases hc)
  have hdrop : ([] ++ chr '#' :: (str "header" ++ [])).drop ([] : Str).length =
      chr '#' :: (str "header" ++ []) := rfl
  have hnone : (str "header" ++ []).takeWhile isxdigit = [] := by decide
  rw [nextToken_hash oneCharacter hdrop, if_pos hnone] at htoken
  obtain rfl := Option.some.inj (Prod.mk.inj htoken).1
  cases htype

/-! ### Delimiters -/

/-- An identifier or a number. -/
def isNumberOrIdent : CssTokenType → Bool
  | .ident | .number | .integer | .percentage | .dimension => true
  | _ => false

/-- What `css_parse_number_or_ident` reads is an identifier or a number, and has a text. -/
structure NumberReader.Texts (numbers : NumberReader) : Prop where
  /-- What it is. -/
  type : ∀ input pos, isNumberOrIdent (numbers.read input pos).1.type = true
  /-- The text. -/
  value : ∀ input pos, (numbers.read input pos).1.value.isSome = true

/-- The characters where a longer token may be tried in vain. -/
def mayFail (c : UInt8) : Bool :=
  c == chr '@' || c == chr '#' || isQuote c || c == chr 'u' || c == chr 'U'

/-- The token took the one character behind the spaces and comments, which is its text. -/
def TakesOne (input : Str) (pos : ℕ) (token : CssToken) (stop : ℕ) : Prop :=
  stop = skipBlank input pos + 1 ∧
    token.value = input[skipBlank input pos]?.map fun c => [c]

/-- The marks are no delimiters. -/
theorem singleToken_ne_delim {type : CssTokenType} (h : singleToken c = some type) :
    type ≠ .delim := by
  rintro rfl
  unfold singleToken at h
  split_ifs at h <;> cases h

theorem doubleToken_ne_delim {d : UInt8} {type : CssTokenType} (h : doubleToken c d = some type) :
    type ≠ .delim := by
  rintro rfl
  unfold doubleToken at h
  split_ifs at h <;> cases h

/-- A delimiter instead of a longer token is there because the longer one is not. -/
theorem tokenOr_delim {type : CssTokenType} {found : Option Str × ℕ} (htype : type ≠ .delim)
    (h : (tokenOr pos type c found).1.type = .delim) :
    found.1 = none ∧ tokenOr pos type c found = fallback found.2 pos c := by
  obtain ⟨value, stop⟩ := found
  cases value with
  | none => exact ⟨rfl, rfl⟩
  | some value => exact absurd h htype

/-- After a longer token was tried in vain, more than one character is taken. -/
theorem tokenOr_delim_lt {type : CssTokenType} {found : Option Str × ℕ} (htype : type ≠ .delim)
    (h : (tokenOr pos type c found).1.type = .delim) (hlt : pos < found.2) :
    (tokenOr pos type c found).1.value = some [c] ∧
      pos + 1 < (tokenOr pos type c found).2 := by
  obtain ⟨-, heq⟩ := tokenOr_delim htype h
  rw [heq]
  exact ⟨rfl, Nat.succ_lt_succ hlt⟩

/-- At a letter or an underscore there is an identifier. -/
theorem tokenOr_ident_ne_delim (h : input[pos]? = some c) (hc : isIdentStart c = true) :
    (tokenOr pos .ident c (cssParseIdent input pos)).1.type ≠ .delim := by
  rw [cssParseIdent, looksAtA, h, Option.any_some, if_pos hc]
  show CssTokenType.ident ≠ .delim
  decide

theorem parseNumber_ne_delim (input : Str) (pos : ℕ) :
    (cssParseNumber input pos).1.type ≠ .delim := by
  unfold cssParseNumber
  simp only
  split_ifs <;> exact nofun

/-- **A delimiter** at a character: it is the text, and it is all that is taken if no longer token
was tried. -/
theorem longToken_delim (hnumbers : numbers.Texts) (h : input[pos]? = some c)
    (hdelim : (longToken input pos numbers c).1.type = .delim) :
    (longToken input pos numbers c).1.value = some [c] ∧
      ((longToken input pos numbers c).2 = pos + 1 ↔ mayFail c = false) := by
  have hlonger : ∀ {token : CssToken × ℕ}, mayFail c = true →
      token.1.value = some [c] ∧ pos + 1 < token.2 →
      token.1.value = some [c] ∧ (token.2 = pos + 1 ↔ mayFail c = false) := by
    rintro token hfail ⟨hvalue, hlt⟩
    refine ⟨hvalue, iff_of_false hlt.ne' ?_⟩
    rw [hfail]
    exact nofun
  have hident : isIdentStart c = true →
      (tokenOr pos .ident c (cssParseIdent input pos)).1.type ≠ .delim :=
    tokenOr_ident_ne_delim h
  unfold longToken at hdelim ⊢
  split_ifs at hdelim ⊢ with hstar hat hhash hdot hdigit hnumber hquote hu hurl halpha
  · exact ⟨rfl, iff_of_true rfl (by rw [hstar]; decide)⟩
  · apply hlonger (by simp [mayFail, hat])
    exact tokenOr_delim_lt nofun hdelim (lt_of_lt_of_le (Nat.lt_succ_self pos) le_parseIdent)
  · apply hlonger (by simp [mayFail, hhash])
    refine @tokenOr_delim_lt pos c .hash _ nofun hdelim ?_
    split
    · exact Nat.lt_succ_self pos
    · exact lt_of_lt_of_le (Nat.lt_succ_self pos) (le_skipWhile _)
  · exact absurd hdelim (parseNumber_ne_delim input pos)
  · exact ⟨rfl, iff_of_true rfl (by rw [hdot]; decide)⟩
  · have htype := hnumbers.type input pos
    rw [hdelim] at htype
    cases htype
  · apply hlonger (by simp [mayFail, hquote])
    exact tokenOr_delim_lt nofun hdelim (parseString_lt c)
  · apply hlonger (by rcases hu with rfl | rfl <;> decide)
    exact tokenOr_delim_lt nofun hdelim parseUrl_lt
  · exact absurd hdelim (hident (by rcases hu with rfl | rfl <;> decide))
  · apply absurd hdelim (hident _)
    simp only [Bool.or_eq_true, beq_iff_eq] at halpha
    rcases halpha with halpha | rfl
    · simp [isIdentStart, halpha]
    · decide
  · refine ⟨rfl, iff_of_true rfl ?_⟩
    simp only [not_or] at hu
    simp [mayFail, hat, hhash, hquote, hu.1, hu.2]

/-- The marks are no delimiters, so that a delimiter is found among the longer tokens. -/
theorem cssToken_delim (h : (cssToken input pos numbers c).1.type = .delim) :
    cssToken input pos numbers c = longToken input pos numbers c := by
  cases hsingle : singleToken c with
  | some type =>
    rw [cssToken, hsingle] at h
    exact absurd h (singleToken_ne_delim hsingle)
  | none =>
    cases hdouble : input[pos + 1]?.bind (doubleToken c) with
    | some type =>
      obtain ⟨d, -, hmark⟩ := Option.bind_eq_some_iff.mp hdouble
      simp only [cssToken, hsingle, hdouble] at h
      exact absurd h (doubleToken_ne_delim hmark)
    | none => simp only [cssToken, hsingle, hdouble]

/-- **Delimiters.** A delimiter takes exactly the character that is its text if and only if this is
none of those where a longer token is tried. -/
theorem delim_iff (hnumbers : numbers.Texts)
    (h : cssNextToken input pos numbers = (some token, stop)) (hdelim : token.type = .delim) :
    TakesOne input pos token stop ↔
      looksAtA input (skipBlank input pos) mayFail = false := by
  unfold cssNextToken at h
  split at h
  · cases h
  rename_i hpos
  cases hc : input[skipBlank input pos]? with
  | none =>
    rw [hc] at h
    cases h
  | some c =>
    simp only [hc] at h
    obtain ⟨htoken, hstop⟩ := Prod.mk.inj h
    obtain rfl := Option.some.inj htoken
    subst hstop
    rw [TakesOne, looksAtA, hc, Option.any_some]
    have heq := cssToken_delim hdelim
    rw [heq] at hdelim ⊢
    obtain ⟨hvalue, hiff⟩ := longToken_delim hnumbers hc hdelim
    rw [hiff, hvalue]
    exact and_iff_left rfl

theorem skipWhile_le (f : UInt8 → Bool) (h : pos ≤ input.length) :
    skipWhile input pos f ≤ input.length := by
  have hlength := (List.takeWhile_prefix f (l := input.drop pos)).length_le
  rw [List.length_drop] at hlength
  unfold skipWhile
  omega

/-- A `css_parse_number_or_ident`: what begins with a digit is a number, other words are
identifiers. -/
def wordReader : NumberReader where
  read input pos :=
    (⟨if looksAtA input pos isdigit then .number else .ident,
      some (slice input pos (skipWhile input (pos + 1) isIdentChar)), pos⟩,
      skipWhile input (pos + 1) isIdentChar)
  forward _ pos := lt_of_lt_of_le (Nat.lt_succ_self pos) (le_skipWhile _)
  within _ _ h := skipWhile_le _ h

theorem wordReader_texts : wordReader.Texts where
  type input pos := by
    simp only [wordReader]
    split_ifs <;> rfl
  value _ _ := rfl

theorem nextToken_asterisk : cssNextToken (str "* a") 0 wordReader =
    (some ⟨.delim, some [chr '*'], 0⟩, 1) := by
  have hdrop : (str "* a").drop 0 = chr '*' :: str " a" := rfl
  rw [nextToken_of_drop hdrop (by decide) (by decide)]
  rfl

/-- An asterisk is taken alone. -/
theorem delim_asterisk :
    TakesOne (str "* a") 0 ⟨.delim, some [chr '*'], 0⟩ 1 ↔
      looksAtA (str "* a") (skipBlank (str "* a") 0) mayFail = false :=
  delim_iff wordReader_texts nextToken_asterisk rfl

/-- The space behind an `@` is lost. -/
theorem delim_at : ¬ ∀ (numbers : NumberReader) (input : Str) (pos stop : ℕ) (token : CssToken),
    numbers.Texts → cssNextToken input pos numbers = (some token, stop) →
      token.type = .delim → TakesOne input pos token stop := by
  intro h
  have hdrop : (str "@ a").drop 0 = chr '@' :: str " a" := rfl
  have hnext : cssNextToken (str "@ a") 0 wordReader = (some ⟨.delim, some [chr '@'], 0⟩, 2) := by
    rw [nextToken_of_drop hdrop (by decide) (by decide)]
    rfl
  obtain ⟨hstop, -⟩ := h wordReader _ 0 2 _ wordReader_texts hnext rfl
  rw [skipBlank_of_drop hdrop (by decide) (by decide)] at hstop
  cases hstop

/-! ### URLs -/

/-- The text of a URL: not empty, and without spaces, quotes, parentheses and backslashes. -/
def PlainUrl (u : Str) : Prop :=
  u ≠ [] ∧ ∀ c ∈ u, isspace c = false ∧ isQuote c = false ∧ c ≠ chr '(' ∧ c ≠ chr ')' ∧
    c ≠ chr '\\'

/-- What is between the parentheses: the text, in quotes or not, and spaces on both sides. -/
def UrlInside (u inside : Str) : Prop :=
  ∃ (gap gap' : Str) (quote : Option UInt8), (∀ c ∈ gap, isspace c = true) ∧
    (∀ c ∈ gap', isspace c = true) ∧ (∀ q ∈ quote, isQuote q = true) ∧
      inside = gap ++ (quote.toList ++ u ++ quote.toList) ++ gap'

/-- Neither a parenthesis nor a backslash is between the parentheses. -/
theorem UrlInside.plain {u inside : Str} (h : UrlInside u inside) (hu : PlainUrl u) :
    ∀ c ∈ inside, c ≠ chr ')' ∧ c ≠ chr '\\' := by
  obtain ⟨gap, gap', quote, hgap, hgap', hquote, rfl⟩ := h
  have hspaces : ∀ c, isspace c = true → c ≠ chr ')' ∧ c ≠ chr '\\' := by
    intro c hc
    constructor
    · rintro rfl
      revert hc
      decide
    · rintro rfl
      revert hc
      decide
  have hquotes : ∀ c ∈ quote.toList, c ≠ chr ')' ∧ c ≠ chr '\\' := by
    intro c hc
    have hq := hquote c (Option.mem_toList.mp hc)
    constructor
    · rintro rfl
      revert hq
      decide
    · rintro rfl
      revert hq
      decide
  intro c hc
  simp only [List.mem_append] at hc
  rcases hc with (hc | (hc | hc) | hc) | hc
  · exact hspaces c (hgap c hc)
  · exact hquotes c hc
  · exact (hu.2 c hc).2.2.2
  · exact hquotes c hc
  · exact hspaces c (hgap' c hc)

/-- A text without backslashes is passed up to the character that ends it. -/
theorem skipEscaped_plain {t : Str} {last : UInt8} (ht : ∀ c ∈ t, c ≠ last ∧ c ≠ chr '\\')
    (h : input.drop pos = t ++ last :: r) : skipEscaped input last pos = pos + t.length := by
  induction t generalizing pos with
  | nil =>
    rw [skipEscaped, dif_neg]
    · rfl
    · rw [looksAtA_of_drop h]
      simp
  | cons c t ih =>
    obtain ⟨hlast, hslash⟩ := ht c List.mem_cons_self
    rw [skipEscaped, dif_pos (by rw [looksAtA_of_drop h]; simpa using hlast),
      if_neg (by rw [looksAt_of_drop h]; simp [hslash]),
      ih (fun b hb => ht b (List.mem_cons_of_mem c hb)) (drop_succ h), List.length_cons]
    omega

/-- `css_parse_url` reads the parenthesis with the text. -/
theorem parseUrl_inside {w₀ w₁ w₂ : UInt8} {inside : Str}
    (hplain : ∀ c ∈ inside, c ≠ chr ')' ∧ c ≠ chr '\\')
    (h : input.drop pos = w₀ :: w₁ :: w₂ :: chr '(' :: (inside ++ chr ')' :: r)) :
    cssParseUrl input pos = (some (chr '(' :: inside), pos + 3 + (inside.length + 1) + 1) := by
  have hdrop : input.drop (pos + 3) = (chr '(' :: inside) ++ chr ')' :: r :=
    drop_succ (drop_succ (drop_succ h))
  have hdrop' : input.drop (pos + 3) = chr '(' :: (inside ++ chr ')' :: r) := hdrop
  have hstart : skipWhile input (pos + 3) isspace = pos + 3 := by
    rw [skipWhile, hdrop', List.takeWhile_cons_of_neg (by decide)]
    rfl
  have hquoted : looksAtA input (pos + 3) isQuote = false := by
    rw [looksAtA_of_drop hdrop']
    rfl
  have hstop : skipEscaped input (chr ')') (pos + 3) = pos + 3 + (inside.length + 1) :=
    skipEscaped_plain (List.forall_mem_cons.mpr ⟨⟨by decide, by decide⟩, hplain⟩) hdrop
  have hend : input.drop (pos + 3 + (inside.length + 1)) = chr ')' :: r := drop_append hdrop
  have hslice : slice input (pos + 3) (pos + 3 + (inside.length + 1)) = chr '(' :: inside := by
    rw [slice, Nat.add_sub_cancel_left, hdrop]
    exact List.take_left' rfl
  have hbare : cssParseBareUrl input (pos + 3) =
      (some (chr '(' :: inside), pos + 3 + (inside.length + 1)) := by
    rw [cssParseBareUrl, hstop]
    simp only [hslice, if_neg (not_le.mpr (lt_of_drop hend))]
  have hlast : skipWhile input (pos + 3 + (inside.length + 1)) isspace =
      pos + 3 + (inside.length + 1) := by
    rw [skipWhile, hend, List.takeWhile_cons_of_neg (by decide)]
    rfl
  have hclose : looksAt input (pos + 3 + (inside.length + 1)) (chr ')') = true := by
    rw [looksAt_of_drop hend]
    rfl
  rw [cssParseUrl, hstart, hquoted, if_neg Bool.false_ne_true, hbare]
  simp [hlast, hclose]

/-- The word `url`, in any case. -/
theorem sameCase_url {word : Str} (h : sameCase word (str "url") = true) : ∃ w₀ w₁ w₂,
    word = [w₀, w₁, w₂] ∧ tolower w₀ = chr 'u' ∧ tolower w₁ = chr 'r' ∧ tolower w₂ = chr 'l' := by
  have hmap : word.map tolower = [chr 'u', chr 'r', chr 'l'] := beq_iff_eq.mp h
  match word with
  | [w₀, w₁, w₂] =>
    simp only [List.map_cons, List.map_nil, List.cons.injEq, and_true] at hmap
    exact ⟨w₀, w₁, w₂, rfl, hmap⟩
  | [] => simp at hmap
  | [_] => simp at hmap
  | [_, _] => simp at hmap
  | _ :: _ :: _ :: _ :: _ => simp at hmap

theorem eq_of_tolower_u (h : tolower c = chr 'u') : c = chr 'u' ∨ c = chr 'U' := by
  unfold tolower at h
  split_ifs at h with hupper
  · right
    have hcode : c = chr 'u' - 32 := by rw [← h, UInt8.add_sub_cancel]
    rw [hcode]
    decide
  · exact .inl h

/-- **The token at a URL** has the right end, and a text that begins with the parenthesis. -/
theorem nextToken_url (numbers : NumberReader) {word inside : Str}
    (hword : sameCase word (str "url") = true)
    (hplain : ∀ c ∈ inside, c ≠ chr ')' ∧ c ≠ chr '\\')
    (h : input.drop pos = word ++ chr '(' :: (inside ++ chr ')' :: r)) :
    cssNextToken input pos numbers = (some ⟨.url, some (chr '(' :: inside), pos⟩,
      pos + (word ++ chr '(' :: (inside ++ [chr ')'])).length) := by
  obtain ⟨w₀, w₁, w₂, rfl, hu, hr, hl⟩ := sameCase_url hword
  have hfour : sameCase (slice input pos (pos + 4)) (str "url(") = true := by
    have hslice : slice input pos (pos + 4) = [w₀, w₁, w₂, chr '('] := by
      rw [slice, h, Nat.add_sub_cancel_left]
      rfl
    rw [hslice, sameCase, beq_iff_eq]
    simp only [List.map_cons, hu, hr, hl]
    rfl
  have hcase := eq_of_tolower_u hu
  have halpha : isalpha w₀ = true := by
    rcases hcase with rfl | rfl <;> decide
  have hne : ∀ d, isalpha d = false → w₀ ≠ d := fun d hd => ne_of_isalpha halpha hd
  have hnumber : ¬ (w₀ = chr '-' ∨ isdigit w₀ = true) := by
    rw [isdigit_of_isalpha halpha]
    simp [hne (chr '-') (by decide)]
  have hquote : ¬ isQuote w₀ = true := by
    simp [isQuote, hne (chr '"') (by decide), hne (chr '\'') (by decide)]
  have hlong : longToken input pos numbers w₀ =
      (⟨.url, some (chr '(' :: inside), pos⟩, pos + 3 + (inside.length + 1) + 1) := by
    rw [longToken, if_neg (hne _ (by decide)), if_neg (hne _ (by decide)),
      if_neg (hne _ (by decide)), if_neg (hne _ (by decide)), if_neg hnumber, if_neg hquote,
      if_pos hcase, if_pos hfour, parseUrl_inside hplain h]
    rfl
  rw [nextToken_of_drop h (isspace_of_isalpha halpha) (hne _ (by decide)),
    cssToken_long (singleToken_of_isalpha halpha) fun d => doubleToken_of_isalpha halpha, hlong]
  simp only [List.length_append, List.length_cons, List.length_nil]
  congr 1
  omega

/-- **URLs.** No URL is read as its text. -/
theorem url_never (numbers : NumberReader) (before rest : Str) {u word inside : Str}
    (hu : PlainUrl u) (hword : sameCase word (str "url") = true) (hinside : UrlInside u inside) :
    ¬ TokenAt numbers (before ++ (word ++ chr '(' :: (inside ++ chr ')' :: rest))) before.length
      .url u (before.length + (word ++ chr '(' :: (inside ++ [chr ')'])).length) := by
  rintro ⟨token, htoken, -, hvalue⟩
  have hdrop : (before ++ (word ++ chr '(' :: (inside ++ chr ')' :: rest))).drop before.length =
      word ++ chr '(' :: (inside ++ chr ')' :: rest) := List.drop_left
  rw [nextToken_url numbers hword (hinside.plain hu) hdrop] at htoken
  obtain rfl := Option.some.inj (Prod.mk.inj htoken).1
  have hmem : chr '(' ∈ u := by
    rw [← Option.some.inj hvalue]
    exact List.mem_cons_self
  exact (hu.2 _ hmem).2.2.1 rfl

/-- The URL `url(a)`. -/
theorem plainUrl_a : PlainUrl (str "a") :=
  ⟨nofun, by simp [str, chr, isspace, isQuote]⟩

theorem urlInside_a : UrlInside (str "a") (str "a") :=
  ⟨[], [], none, nofun, nofun, nofun, rfl⟩

theorem url_never_a :
    ¬ TokenAt wordReader ([] ++ (str "url" ++ chr '(' :: (str "a" ++ chr ')' :: [])))
      ([] : Str).length .url (str "a")
      (([] : Str).length + (str "url" ++ chr '(' :: (str "a" ++ [chr ')'])).length) :=
  url_never wordReader [] [] plainUrl_a (by decide) urlInside_a

/-- Its text is read with the parenthesis. -/
theorem url_parenthesis : ¬ ∀ (numbers : NumberReader) (before rest u word inside : Str),
    PlainUrl u → sameCase word (str "url") = true → UrlInside u inside →
      TokenAt numbers (before ++ (word ++ chr '(' :: (inside ++ chr ')' :: rest))) before.length
        .url u (before.length + (word ++ chr '(' :: (inside ++ [chr ')'])).length) := by
  intro h
  obtain ⟨token, htoken, -, hvalue⟩ :=
    h wordReader [] [] (str "a") (str "url") (str "a") plainUrl_a (by decide) urlInside_a
  rw [nextToken_url wordReader (by decide) (urlInside_a.plain plainUrl_a) rfl] at htoken
  obtain rfl := Option.some.inj (Prod.mk.inj htoken).1
  cases hvalue

end PrismaticOS.Css
