import PrismaticOS.Css.Tokenizer

/-!
# The CSS parser

The functions of `html/src/css/css_parser.c` that build a stylesheet from the tokens.

## The model

Lists linked through `next` are lists, the one added last in front. A rule has its selectors, its
declarations and its specificity; the other fields of the structures, which the parser leaves
clear, are left out. A value is what `css_value_parse_string` makes of its text, and a token
without a text counts as an empty one where `css_parse_declaration` reads it. Allocations
succeed.
-/

namespace PrismaticOS.Css

open PrismaticOS.Libc

/-- `css_selector_type_t`. -/
inductive CssSelectorType where
  /-- `CSS_SELECTOR_TYPE_ELEMENT`. -/
  | element
  /-- `CSS_SELECTOR_TYPE_ID`. -/
  | id
  /-- `CSS_SELECTOR_TYPE_CLASS`. -/
  | classOf
  /-- `CSS_SELECTOR_TYPE_ATTRIBUTE`. -/
  | attribute
  /-- `CSS_SELECTOR_TYPE_PSEUDO_CLASS`. -/
  | pseudoClass
  /-- `CSS_SELECTOR_TYPE_PSEUDO_ELEMENT`. -/
  | pseudoElement
  /-- `CSS_SELECTOR_TYPE_UNIVERSAL`. -/
  | universal
  deriving DecidableEq

/-- A `css_selector_t`. -/
structure CssSelector where
  /-- What it is. -/
  type : CssSelectorType
  /-- Its text. -/
  value : Option Str
  deriving DecidableEq

/-- A `css_value_t`. -/
inductive CssValue where
  /-- `CSS_VALUE_STRING`. -/
  | string (text : Str)
  deriving DecidableEq

/-- A `css_declaration_t`. -/
structure CssDeclaration where
  /-- The property. -/
  property : Str
  /-- Its value. -/
  value : CssValue
  deriving DecidableEq

/-- A `css_rule_t`. -/
structure CssRule where
  /-- The selectors. -/
  selectors : List CssSelector
  /-- The declarations. -/
  declarations : List CssDeclaration
  /-- The specificity. -/
  specificity : UInt32
  deriving DecidableEq

/-- A `css_stylesheet_t`. -/
structure CssStylesheet where
  /-- The rules. -/
  rules : List CssRule
  deriving DecidableEq

/-- What a selector adds to the specificity. -/
def CssSelectorType.weight : CssSelectorType → UInt32
  | .id => 1000
  | .classOf | .attribute | .pseudoClass => 100
  | .element | .pseudoElement => 10
  | .universal => 0

/-- `css_selector_calculate_specificity`. -/
def cssSelectorCalculateSpecificity (selectors : List CssSelector) : UInt32 :=
  selectors.foldl (fun specificity selector => specificity + selector.type.weight) 0

/-- `css_rule_create`. -/
def cssRuleCreate (selectors : List CssSelector) : CssRule :=
  ⟨selectors, [], cssSelectorCalculateSpecificity selectors⟩

/-- `css_rule_add_declaration`. -/
def cssRuleAddDeclaration (rule : CssRule) (declaration : CssDeclaration) : CssRule :=
  { rule with declarations := declaration :: rule.declarations }

/-- `css_stylesheet_add_rule`. -/
def cssStylesheetAddRule (sheet : CssStylesheet) (rule : CssRule) : CssStylesheet :=
  { sheet with rules := rule :: sheet.rules }

section
variable (numbers : NumberReader) (input : Str)

/-- A loop to the next token of a kind. -/
def skipTo (f : CssTokenType → Bool) (pos : ℕ) : Option CssToken × ℕ :=
  match h : cssNextToken input pos numbers with
  | (none, stop) => (none, stop)
  | (some token, stop) =>
    have := nextToken_lt numbers h
    if f token.type then (some token, stop) else skipTo f stop
termination_by input.length - pos

/-- The loop of `css_parse_at_rule` to the brace that ends the rule. -/
def skipNested (depth pos : ℕ) : ℕ :=
  match h : cssNextToken input pos numbers with
  | (none, stop) => stop
  | (some token, stop) =>
    have := nextToken_lt numbers h
    if token.type = .leftBrace then skipNested (depth + 1) stop
    else if token.type = .rightBrace then
      if depth = 1 then stop else skipNested (depth - 1) stop
    else skipNested depth stop
termination_by input.length - pos

/-- `css_parse_at_rule`: the rule is skipped. -/
def cssParseAtRule (pos : ℕ) : ℕ :=
  match skipTo numbers input (fun type => type == .semicolon || type == .leftBrace) pos with
  | (none, stop) => stop
  | (some token, stop) =>
    if token.type = .leftBrace then skipNested numbers input 1 stop else stop

/-- The text of a value with one more token. -/
def joinValue (value : Option Str) (token : CssToken) : Str :=
  match value with
  | some text => text ++ chr ' ' :: token.value.getD []
  | none => token.value.getD []

/-- The loop of `css_parse_declaration` over a value: up to a semicolon or a closing brace, which
it passes. -/
def readValue (value : Option Str) (pos : ℕ) : Option Str × ℕ :=
  match h : cssNextToken input pos numbers with
  | (none, stop) => (value, stop)
  | (some token, stop) =>
    have := nextToken_lt numbers h
    if token.type = .semicolon ∨ token.type = .rightBrace then (value, stop)
    else readValue (some (joinValue value token)) stop
termination_by input.length - pos

/-- `css_parse_declaration`. -/
def cssParseDeclaration (rule : CssRule) (property : CssToken) (pos : ℕ) : CssRule × ℕ :=
  match cssNextToken input pos numbers with
  | (none, stop) => (rule, stop)
  | (some token, stop) =>
    if token.type = .colon then
      match (readValue numbers input none stop).1, property.value with
      | some value, some name =>
        (cssRuleAddDeclaration rule ⟨name, .string value⟩, (readValue numbers input none stop).2)
      | _, _ => (rule, (readValue numbers input none stop).2)
    else (rule, stop)

theorem le_nextToken (pos : ℕ) : pos ≤ (cssNextToken input pos numbers).2 := by
  cases h : cssNextToken input pos numbers with
  | mk token stop =>
    cases token with
    | some token => exact (nextToken_lt numbers h).1.le
    | none =>
      unfold cssNextToken at h
      split at h
      · cases h
        exact le_rfl
      · split at h
        · cases h
          exact le_skipBlank pos
        · cases h

theorem nextToken_le {pos stop : ℕ} {token : Option CssToken}
    (h : cssNextToken input pos numbers = (token, stop)) : pos ≤ stop := by
  have hle := le_nextToken numbers input pos
  rwa [h] at hle

theorem le_readValue (value : Option Str) (pos : ℕ) :
    pos ≤ (readValue numbers input value pos).2 := by
  fun_induction readValue numbers input value pos with
  | case1 value pos stop h => exact nextToken_le numbers input h
  | case2 value pos token stop h hlt hstop => exact hlt.1.le
  | case3 value pos token stop h hlt hstop ih => exact hlt.1.le.trans ih

theorem le_parseDeclaration (rule : CssRule) (property : CssToken) (pos : ℕ) :
    pos ≤ (cssParseDeclaration numbers input rule property pos).2 := by
  have hnext := le_nextToken numbers input pos
  unfold cssParseDeclaration
  split
  · rename_i heq
    rwa [heq] at hnext
  · rename_i stop heq
    rw [heq] at hnext
    have hread := le_readValue numbers input none stop
    split_ifs
    · split
      · exact hnext.trans hread
      · exact hnext.trans hread
    · exact hnext

/-- The loop of `css_parse_style_rule` over the declarations. -/
def readDeclarations (rule : CssRule) (pos : ℕ) : CssRule × ℕ :=
  match h : cssNextToken input pos numbers with
  | (none, stop) => (rule, stop)
  | (some token, stop) =>
    have := nextToken_lt numbers h
    if token.type = .rightBrace then (rule, stop)
    else if token.type = .ident then
      have := le_parseDeclaration numbers input rule token stop
      let parsed := cssParseDeclaration numbers input rule token stop
      readDeclarations parsed.1 parsed.2
    else readDeclarations rule stop
termination_by input.length - pos

/-- `css_parse_style_rule`. -/
def cssParseStyleRule (sheet : CssStylesheet) (first : CssToken) (pos : ℕ) : CssStylesheet × ℕ :=
  let rule := cssRuleCreate []
  let rule := { rule with selectors := ⟨.element, first.value⟩ :: rule.selectors }
  match skipTo numbers input (fun type => type == .leftBrace) pos with
  | (none, stop) => (sheet, stop)
  | (some _, stop) =>
    let parsed := readDeclarations numbers input rule stop
    (cssStylesheetAddRule sheet parsed.1, parsed.2)

/-- `css_parse_rule`. -/
def cssParseRule (sheet : CssStylesheet) (first : CssToken) (pos : ℕ) : CssStylesheet × ℕ :=
  if first.type = .atKeyword then (sheet, cssParseAtRule numbers input pos)
  else if first.type = .ident ∨ first.type = .hash then
    cssParseStyleRule numbers input sheet first pos
  else (sheet, pos)

theorem le_skipTo (f : CssTokenType → Bool) (pos : ℕ) :
    pos ≤ (skipTo numbers input f pos).2 := by
  fun_induction skipTo numbers input f pos with
  | case1 pos stop h => exact nextToken_le numbers input h
  | case2 pos token stop h hlt hf => exact hlt.1.le
  | case3 pos token stop h hlt hf ih => exact hlt.1.le.trans ih

theorem le_skipNested (depth pos : ℕ) : pos ≤ skipNested numbers input depth pos := by
  fun_induction skipNested numbers input depth pos with
  | case1 depth pos stop h => exact nextToken_le numbers input h
  | case2 depth pos token stop h hlt hleft ih => exact hlt.1.le.trans ih
  | case3 pos token stop h hlt hleft hright => exact hlt.1.le
  | case4 depth pos token stop h hlt hleft hright hdepth ih => exact hlt.1.le.trans ih
  | case5 depth pos token stop h hlt hleft hright ih => exact hlt.1.le.trans ih

theorem le_readDeclarations (rule : CssRule) (pos : ℕ) :
    pos ≤ (readDeclarations numbers input rule pos).2 := by
  fun_induction readDeclarations numbers input rule pos with
  | case1 rule pos stop h => exact nextToken_le numbers input h
  | case2 rule pos token stop h hlt hright => exact hlt.1.le
  | case3 rule pos token stop h hlt hright hident hle parsed ih =>
    exact hlt.1.le.trans (hle.trans ih)
  | case4 rule pos token stop h hlt hright hident ih => exact hlt.1.le.trans ih

theorem le_parseRule (sheet : CssStylesheet) (first : CssToken) (pos : ℕ) :
    pos ≤ (cssParseRule numbers input sheet first pos).2 := by
  unfold cssParseRule
  split_ifs
  · have hskip := le_skipTo numbers input
      (fun type => type == .semicolon || type == .leftBrace) pos
    unfold cssParseAtRule
    simp only
    split
    · rename_i heq
      rwa [heq] at hskip
    · rename_i stop heq
      rw [heq] at hskip
      split_ifs
      · exact hskip.trans (le_skipNested numbers input 1 stop)
      · exact hskip
  · have hskip := le_skipTo numbers input (fun type => type == .leftBrace) pos
    unfold cssParseStyleRule
    simp only
    split
    · rename_i heq
      rwa [heq] at hskip
    · rename_i stop heq
      rw [heq] at hskip
      exact hskip.trans (le_readDeclarations numbers input _ stop)
  · exact le_rfl

/-- The loop of `css_parser_parse`. -/
def readRules (sheet : CssStylesheet) (pos : ℕ) : CssStylesheet :=
  match h : cssNextToken input pos numbers with
  | (none, _) => sheet
  | (some token, stop) =>
    have := nextToken_lt numbers h
    have := le_parseRule numbers input sheet token stop
    let parsed := cssParseRule numbers input sheet token stop
    readRules parsed.1 parsed.2
termination_by input.length - pos

end

/-- `css_parser_parse`; `css` is the memory that the string is in. -/
def cssParserParse (numbers : NumberReader) (css : List UInt8) : CssStylesheet :=
  readRules numbers (css.takeWhile (· != 0)) ⟨[]⟩ 0

end PrismaticOS.Css
