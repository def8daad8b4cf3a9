import PrismaticOS.Css.ParserRuns
import PrismaticOS.Css.TokenForms

/-!
# The texts of tokens

Marks, which are tokens of one or two characters, have no text. `css_parse_declaration` joins the
texts of all tokens of a value, the marks among them.

## The model

A `Place` says where a token stands: it is what is left of a `Loop` if all data is forgotten, and
depends on the types of the tokens before only.

## What is proved

* `nextToken_text` — exactly the marks have no text.
* `take_place` — the loop that gets a token is the one of its place.
* `texts_used_iff` — no missing text is used exactly if no mark stands in a value.
-/

namespace PrismaticOS.Css

open PrismaticOS.Libc

/-! ### Places -/

/-- Where a token stands. -/
inductive Place where
  /-- Outside of rules. -/
  | top
  /-- In an at-rule, in front of a block. -/
  | atRule
  /-- In the block of an at-rule. -/
  | braces (depth : ℕ)
  /-- Behind the beginning of a rule. -/
  | selector
  /-- In the block of a rule. -/
  | block
  /-- Behind a property. -/
  | property
  /-- In a value. -/
  | value
  deriving DecidableEq

/-- The place behind a token. -/
def Place.next : Place → CssTokenType → Place
  | .top, type =>
    if type = .atKeyword then .atRule
    else if type = .ident ∨ type = .hash then .selector
    else .top
  | .atRule, type =>
    if type = .leftBrace then .braces 1 else if type = .semicolon then .top else .atRule
  | .braces depth, type =>
    if type = .leftBrace then .braces (depth + 1)
    else if type = .rightBrace then if depth = 1 then .top else .braces (depth - 1)
    else .braces depth
  | .selector, type => if type = .leftBrace then .block else .selector
  | .block, type =>
    if type = .rightBrace then .top else if type = .ident then .property else .block
  | .property, type => if type = .colon then .value else .block
  | .value, type => if type = .semicolon ∨ type = .rightBrace then .block else .value

/-- The place behind some tokens. -/
def placeAfter (types : List CssTokenType) : Place := types.foldl Place.next .top

/-- The place of the token that a loop waits for. -/
def Loop.place : Loop → Place
  | .rules _ | .done _ => .top
  | .atRule _ => .atRule
  | .nested _ depth => .braces depth
  | .selector _ _ => .selector
  | .block _ _ => .block
  | .colon _ _ _ => .property
  | .value _ _ _ _ => .value

section
variable {numbers : NumberReader} {input : Str} {pos stop : ℕ} {loop : Loop} {token : CssToken}
  {tokens : List CssToken} {type : CssTokenType} {c : UInt8}

/-- A loop that gets a token is the one of the next place. -/
theorem step_place (token : CssToken) (h : loop.isDone = false) :
    (loop.step (some token)).place = loop.place.next token.type := by
  cases loop with
  | done sheet => cases h
  | rules sheet | atRule sheet | selector sheet rule | block sheet rule | colon sheet rule property
    | value sheet rule property text | nested sheet depth =>
    simp only [Loop.step, Loop.place, Place.next]
    split_ifs <;> rfl

/-- **The loop of a token** is the one of its place. -/
theorem take_place (tokens : List CssToken) (h : loop.isDone = false) :
    (loop.take tokens).place = (tokens.map CssToken.type).foldl Place.next loop.place := by
  induction tokens generalizing loop with
  | nil => rfl
  | cons token tokens ih =>
    rw [take_cons, ih (step_isDone token h), step_place token h]
    rfl

/-! ### Marks -/

/-- The tokens of one or two characters. -/
def isMark : CssTokenType → Bool
  | .colon | .semicolon | .comma | .leftBracket | .rightBracket | .leftParen | .rightParen
  | .leftBrace | .rightBrace | .includeMatch | .dashMatch | .prefixMatch | .suffixMatch
  | .substringMatch | .column => true
  | _ => false

theorem singleToken_isMark (h : singleToken c = some type) : isMark type = true := by
  unfold singleToken at h
  split_ifs at h <;> cases h <;> rfl

theorem doubleToken_isMark {d : UInt8} (h : doubleToken c d = some type) : isMark type = true := by
  unfold doubleToken at h
  split_ifs at h <;> cases h <;> rfl

/-- The token is no mark, and has a text. -/
def HasText (token : CssToken) : Prop := isMark token.type = false ∧ token.value.isSome = true

theorem tokenOr_hasText {found : Option Str × ℕ} (h : isMark type = false) :
    HasText (tokenOr pos type c found).1 := by
  obtain ⟨value, stop⟩ := found
  cases value with
  | none => exact ⟨rfl, rfl⟩
  | some value => exact ⟨h, rfl⟩

theorem parseNumber_hasText (input : Str) (pos : ℕ) : HasText (cssParseNumber input pos).1 := by
  unfold cssParseNumber
  simp only
  split_ifs <;> exact ⟨rfl, rfl⟩

/-- A longer token has a text. -/
theorem longToken_hasText (hnumbers : numbers.Texts) :
    HasText (longToken input pos numbers c).1 := by
  unfold longToken
  simp only
  split_ifs
  · exact ⟨rfl, rfl⟩
  · exact tokenOr_hasText rfl
  · exact tokenOr_hasText rfl
  · exact tokenOr_hasText rfl
  · exact parseNumber_hasText input pos
  · exact ⟨rfl, rfl⟩
  · have htype := hnumbers.type input pos
    refine ⟨?_, hnumbers.value input pos⟩
    cases h : (numbers.read input pos).1.type <;> rw [h] at htype <;> first | rfl | cases htype
  · exact tokenOr_hasText rfl
  · exact tokenOr_hasText rfl
  · exact tokenOr_hasText rfl
  · exact tokenOr_hasText rfl
  · exact ⟨rfl, rfl⟩

/-- **Exactly the marks** have no text. -/
theorem nextToken_text (hnumbers : numbers.Texts)
    (h : cssNextToken input pos numbers = (some token, stop)) :
    token.value = none ↔ isMark token.type = true := by
  have hlong : HasText token → (token.value = none ↔ isMark token.type = true) := by
    rintro ⟨hmark, hvalue⟩
    refine iff_of_false (fun hnone => ?_) (by rw [hmark]; nofun)
    rw [hnone] at hvalue
    cases hvalue
  unfold cssNextToken at h
  split at h
  · cases h
  split at h
  · cases h
  rename_i c hc
  obtain rfl := Option.some.inj (Prod.mk.inj h).1
  unfold cssToken at hlong ⊢
  split at hlong
  · rename_i hsingle
    exact iff_of_true rfl (singleToken_isMark hsingle)
  split at hlong
  · rename_i hdouble
    obtain ⟨d, -, hdouble⟩ := Option.bind_eq_some_iff.mp hdouble
    exact iff_of_true rfl (doubleToken_isMark hdouble)
  · exact hlong (longToken_hasText hnumbers)

/-! ### Used texts -/

/-- A text that is used only if there is one. -/
def usedIf (guard : Bool) (text : Option Str) : List (Option Str) := if guard then [text] else []

theorem mem_usedIf {guard : Bool} {text used : Option Str} (h : used ∈ usedIf guard text) :
    guard = true ∧ used = text := by
  unfold usedIf at h
  split_ifs at h with hguard
  · exact ⟨hguard, List.mem_singleton.mp h⟩
  · cases h

/-- The texts that are passed to `strlen`, `strcat` or `strdup` when the next token, or `NULL`, is
there: `css_selector_create` copies the one of a selector unless it is missing, the end of
`css_parse_declaration` the one of a property, and its loop takes the one of every token. -/
def Loop.uses : Loop → Option CssToken → List (Option Str)
  | .rules _, some token =>
    if token.type = .ident ∨ token.type = .hash then usedIf token.value.isSome token.value else []
  | .value _ _ property text, none =>
    usedIf (text.isSome && property.value.isSome) property.value
  | .value _ _ property text, some token =>
    if token.type = .semicolon ∨ token.type = .rightBrace then
      usedIf (text.isSome && property.value.isSome) property.value
    else [token.value]
  | _, _ => []

/-- No missing text is used while a stylesheet is parsed. -/
def TextsNonNull (numbers : NumberReader) (input : Str) : Prop :=
  ∀ s, Turns numbers input (.rules ⟨[]⟩, 0) s →
    ∀ text ∈ s.1.uses (cssNextToken input s.2 numbers).1, text ≠ none

/-- The token is in a value, and does not end it. -/
def InValue (loop : Loop) (token : CssToken) : Prop :=
  loop.place = .value ∧ ¬ (token.type = .semicolon ∨ token.type = .rightBrace)

/-- Only a value uses missing texts. -/
theorem uses_none {next : Option CssToken} (h : none ∈ loop.uses next) :
    ∃ token, next = some token ∧ InValue loop token ∧ token.value = none := by
  cases loop with
  | rules sheet =>
    cases next with
    | none => cases h
    | some token =>
      simp only [Loop.uses] at h
      split_ifs at h
      · obtain ⟨hguard, hnone⟩ := mem_usedIf h
        rw [← hnone] at hguard
        cases hguard
      · cases h
  | value sheet rule property text =>
    have hproperty : none ∉ usedIf (text.isSome && property.value.isSome) property.value := by
      intro hmem
      obtain ⟨hguard, hnone⟩ := mem_usedIf hmem
      rw [← hnone, Option.isSome_none, Bool.and_false] at hguard
      cases hguard
    cases next with
    | none => exact absurd h hproperty
    | some token =>
      simp only [Loop.uses] at h
      split_ifs at h with hstop
      · exact absurd h hproperty
      · exact ⟨token, rfl, ⟨rfl, hstop⟩, (List.mem_singleton.mp h).symm⟩
  | done sheet | atRule sheet | selector sheet rule | block sheet rule
    | colon sheet rule property | nested sheet depth => cases next <;> cases h

/-- A value uses the text of a token that does not end it. -/
theorem mem_uses (h : InValue loop token) : token.value ∈ loop.uses (some token) := by
  obtain ⟨hplace, hstop⟩ := h
  cases loop with
  | value sheet rule property text =>
    rw [Loop.uses, if_neg hstop]
    exact List.mem_singleton_self _
  | rules sheet | done sheet | atRule sheet | selector sheet rule | block sheet rule
    | colon sheet rule property | nested sheet depth => cases hplace

/-- No mark stands in a value. -/
def NoMarkInValue (types : List CssTokenType) : Prop :=
  ∀ before type after, types = before ++ type :: after → placeAfter before = .value →
    isMark type = true → type = .semicolon ∨ type = .rightBrace

theorem no_mark_of_texts (hnumbers : numbers.Texts) (h : TextsNonNull numbers input) :
    NoMarkInValue ((tokensFrom numbers input 0).map CssToken.type) := by
  intro before type after hsplit hplace hmark
  obtain ⟨taken, rest, htokens, rfl, hrest⟩ := List.map_eq_append_iff.mp hsplit
  obtain ⟨token, rest, rfl, rfl, -⟩ := List.map_eq_cons_iff.mp hrest
  have hdone : (Loop.rules ⟨[]⟩).isDone = false := rfl
  obtain ⟨pos, hturns, hfrom⟩ := tokens_turns numbers input hdone htokens
  obtain ⟨stop, hnext, -⟩ := (tokensFrom_cons numbers input).mp hfrom
  by_contra hstop
  have hvalue : InValue ((Loop.rules ⟨[]⟩).take taken) token := by
    refine ⟨?_, hstop⟩
    rw [take_place taken hdone]
    exact hplace
  refine h _ hturns token.value ?_ ((nextToken_text hnumbers hnext).mpr hmark)
  rw [hnext]
  exact mem_uses hvalue

theorem texts_of_no_mark (hnumbers : numbers.Texts)
    (h : NoMarkInValue ((tokensFrom numbers input 0).map CssToken.type)) :
    TextsNonNull numbers input := by
  rintro ⟨loop, pos⟩ hturns text htext rfl
  obtain ⟨token, htoken, ⟨hplace, hstop⟩, hvalue⟩ := uses_none htext
  cases hnext : cssNextToken input pos numbers with
  | mk next stop =>
    rw [hnext] at htoken
    obtain rfl : next = some token := htoken
    have hfrom := (tokensFrom_cons numbers input).mpr ⟨stop, hnext, rfl⟩
    rcases turns_tokens numbers input hturns with hnil | ⟨before, htokens, rfl⟩
    · rw [hfrom] at hnil
      cases hnil
    · rw [hfrom] at htokens
      rw [take_place before rfl] at hplace
      have hsplit : (tokensFrom numbers input 0).map CssToken.type =
          before.map CssToken.type ++
            token.type :: (tokensFrom numbers input stop).map CssToken.type := by
        rw [htokens, List.map_append, List.map_cons]
      exact hstop (h _ _ _ hsplit hplace ((nextToken_text hnumbers hnext).mp hvalue))

/-- **Texts.** No missing text is used exactly if no mark, but the one that ends it, stands in a
value. -/
theorem texts_used_iff (hnumbers : numbers.Texts) (css : List UInt8) :
    TextsNonNull numbers (css.takeWhile (· != 0)) ↔
      NoMarkInValue ((tokensFrom numbers (css.takeWhile (· != 0)) 0).map CssToken.type) :=
  ⟨no_mark_of_texts hnumbers, texts_of_no_mark hnumbers⟩

theorem texts_used_letter : TextsNonNull wordReader ((str "a\x7bb:c\x7d").takeWhile (· != 0)) ↔
    NoMarkInValue
      ((tokensFrom wordReader ((str "a\x7bb:c\x7d").takeWhile (· != 0)) 0).map CssToken.type) :=
  texts_used_iff wordReader_texts (str "a\x7bb:c\x7d")

/-- The tokens from a character on that is neither a space nor a slash. -/
theorem tokensFrom_of_drop {r : Str} (h : input.drop pos = c :: r)
    (hgap : isspace c = false ∧ c ≠ chr '/')
    (htoken : cssToken input pos numbers c = (token, stop)) :
    tokensFrom numbers input pos = token :: tokensFrom numbers input stop := by
  refine (tokensFrom_cons numbers input).mpr ⟨stop, ?_, rfl⟩
  rw [nextToken_of_drop h hgap.1 hgap.2, htoken]

/-- The tokens of a rule with a comma as a value. -/
theorem tokensFrom_comma : ∃ after,
    (tokensFrom wordReader (str "a\x7bb:,\x7d") 0).map CssToken.type =
      [.ident, .leftBrace, .ident, .colon] ++ .comma :: after := by
  rw [tokensFrom_of_drop (c := chr 'a') rfl (by decide) rfl,
    tokensFrom_of_drop (c := chr '\x7b') rfl (by decide) rfl,
    tokensFrom_of_drop (c := chr 'b') rfl (by decide) rfl,
    tokensFrom_of_drop (c := chr ':') rfl (by decide) rfl,
    tokensFrom_of_drop (c := chr ',') rfl (by decide) rfl]
  exact ⟨_, rfl⟩

/-- The comma is passed to `strdup`. -/
theorem comma_in_value : ¬ ∀ (numbers : NumberReader) (css : List UInt8), numbers.Texts →
    TextsNonNull numbers (css.takeWhile (· != 0)) := by
  intro h
  obtain ⟨after, htokens⟩ := tokensFrom_comma
  have hmarks := no_mark_of_texts wordReader_texts
    (h wordReader (str "a\x7bb:,\x7d") wordReader_texts) _ _ after htokens rfl rfl
  simp at hmarks

end

end PrismaticOS.Css
