import Mathlib.Logic.Relation
import PrismaticOS.Css.Stylesheets

/-!
# The CSS parser, token by token

The loops of `css_parser_parse` and of the functions that it calls all wait for
`css_next_token`. A `Loop` is the innermost one that does, with what it has, and a `Turn` is one
call and what is done with the token.

## What is proved

* `parse_turns` — from the beginning the turns lead to the end, with the stylesheet that
  `css_parser_parse` returns.
* `parse_tokens` — the stylesheet depends on the tokens of the input only, which are taken one after
  the other.
-/

namespace PrismaticOS.Css

open PrismaticOS.Libc

/-- A rule with its selector only, as `css_parse_style_rule` makes it. -/
def ruleOf (first : CssToken) : CssRule :=
  { cssRuleCreate [] with selectors := ⟨.element, first.value⟩ :: (cssRuleCreate []).selectors }

/-- The end of `css_parse_declaration`: a declaration with a value is added. -/
def addValue (rule : CssRule) (property : CssToken) (value : Option Str) : CssRule :=
  match value, property.value with
  | some value, some name => cssRuleAddDeclaration rule ⟨name, .string value⟩
  | _, _ => rule

/-- A loop that waits for a token. -/
inductive Loop where
  /-- The loop of `css_parser_parse`. -/
  | rules (sheet : CssStylesheet)
  /-- The first loop of `css_parse_at_rule`. -/
  | atRule (sheet : CssStylesheet)
  /-- The second one. -/
  | nested (sheet : CssStylesheet) (depth : ℕ)
  /-- The first loop of `css_parse_style_rule`. -/
  | selector (sheet : CssStylesheet) (rule : CssRule)
  /-- The second one. -/
  | block (sheet : CssStylesheet) (rule : CssRule)
  /-- `css_parse_declaration` expects a colon. -/
  | colon (sheet : CssStylesheet) (rule : CssRule) (property : CssToken)
  /-- The loop of `css_parse_declaration`. -/
  | value (sheet : CssStylesheet) (rule : CssRule) (property : CssToken) (text : Option Str)
  /-- `css_parser_parse` has returned. -/
  | done (sheet : CssStylesheet)

/-- What is done with the next token, or with `NULL`. -/
def Loop.step : Loop → Option CssToken → Loop
  | .rules sheet, none => .done sheet
  | .rules sheet, some token =>
    if token.type = .atKeyword then .atRule sheet
    else if token.type = .ident ∨ token.type = .hash then .selector sheet (ruleOf token)
    else .rules sheet
  | .atRule sheet, none => .rules sheet
  | .atRule sheet, some token =>
    if token.type = .leftBrace then .nested sheet 1
    else if token.type = .semicolon then .rules sheet
    else .atRule sheet
  | .nested sheet _, none => .rules sheet
  | .nested sheet depth, some token =>
    if token.type = .leftBrace then .nested sheet (depth + 1)
    else if token.type = .rightBrace then
      if depth = 1 then .rules sheet else .nested sheet (depth - 1)
    else .nested sheet depth
  | .selector sheet _, none => .rules sheet
  | .selector sheet rule, some token =>
    if token.type = .leftBrace then .block sheet rule else .selector sheet rule
  | .block sheet rule, none => .rules (cssStylesheetAddRule sheet rule)
  | .block sheet rule, some token =>
    if token.type = .rightBrace then .rules (cssStylesheetAddRule sheet rule)
    else if token.type = .ident then .colon sheet rule token
    else .block sheet rule
  | .colon sheet rule _, none => .block sheet rule
  | .colon sheet rule property, some token =>
    if token.type = .colon then .value sheet rule property none else .block sheet rule
  | .value sheet rule property text, none => .block sheet (addValue rule property text)
  | .value sheet rule property text, some token =>
    if token.type = .semicolon ∨ token.type = .rightBrace then
      .block sheet (addValue rule property text)
    else .value sheet rule property (some (joinValue text token))
  | .done sheet, _ => .done sheet

/-- The parser has returned. -/
def Loop.isDone : Loop → Bool
  | .done _ => true
  | _ => false

section
variable (numbers : NumberReader) (input : Str)

/-- A call of `css_next_token`, and what is done with the token. -/
def Turn (s s' : Loop × ℕ) : Prop :=
  s.1.isDone = false ∧ s' = (s.1.step (cssNextToken input s.2 numbers).1,
    (cssNextToken input s.2 numbers).2)

/-- Some turns. -/
abbrev Turns : Loop × ℕ → Loop × ℕ → Prop := Relation.ReflTransGen (Turn numbers input)

variable {numbers input} {loop loop' : Loop} {pos stop : ℕ} {token : Option CssToken}
  {s : Loop × ℕ}

theorem turn_of_next (h : cssNextToken input pos numbers = (token, stop))
    (hloop : loop.isDone = false) : Turn numbers input (loop, pos) (loop.step token, stop) := by
  refine ⟨hloop, ?_⟩
  rw [h]

/-- One more turn in front. -/
theorem turns_head (h : cssNextToken input pos numbers = (token, stop))
    (hloop : loop.isDone = false) (hstep : loop.step token = loop')
    (hrest : Turns numbers input (loop', stop) s) : Turns numbers input (loop, pos) s :=
  .head (turn_of_next h hloop) (hstep.symm ▸ hrest)

/-! ### The loops -/

variable (numbers input) (sheet : CssStylesheet) (rule : CssRule) (property : CssToken)

theorem value_turns (text : Option Str) (pos : ℕ) :
    Turns numbers input (.value sheet rule property text, pos)
      (.block sheet (addValue rule property (readValue numbers input text pos).1),
        (readValue numbers input text pos).2) := by
  fun_induction readValue numbers input text pos with
  | case1 text pos stop h => exact turns_head h rfl rfl .refl
  | case2 text pos token stop h hlt hstop => exact turns_head h rfl (if_pos hstop) .refl
  | case3 text pos token stop h hlt hstop ih => exact turns_head h rfl (if_neg hstop) ih

/-- `css_parse_declaration` behind a colon. -/
theorem parseDeclaration_colon {first : CssToken} {pos stop : ℕ}
    (h : cssNextToken input pos numbers = (some first, stop)) (hcolon : first.type = .colon) :
    cssParseDeclaration numbers input rule property pos =
      (addValue rule property (readValue numbers input none stop).1,
        (readValue numbers input none stop).2) := by
  rw [cssParseDeclaration, h]
  simp only [if_pos hcolon, addValue]
  cases (readValue numbers input none stop).1 with
  | none => rfl
  | some value => cases property.value <;> rfl

theorem declaration_turns (pos : ℕ) : Turns numbers input (.colon sheet rule property, pos)
    (.block sheet (cssParseDeclaration numbers input rule property pos).1,
      (cssParseDeclaration numbers input rule property pos).2) := by
  cases h : cssNextToken input pos numbers with
  | mk token stop =>
    cases token with
    | none =>
      simp only [cssParseDeclaration, h]
      exact turns_head h rfl rfl .refl
    | some token =>
      by_cases hcolon : token.type = .colon
      · rw [parseDeclaration_colon numbers input rule property h hcolon]
        exact turns_head h rfl (if_pos hcolon)
          (value_turns numbers input sheet rule property none stop)
      · simp only [cssParseDeclaration, h, if_neg hcolon]
        exact turns_head h rfl (if_neg hcolon) .refl

theorem block_turns (rule : CssRule) (pos : ℕ) : Turns numbers input (.block sheet rule, pos)
    (.rules (cssStylesheetAddRule sheet (readDeclarations numbers input rule pos).1),
      (readDeclarations numbers input rule pos).2) := by
  fun_induction readDeclarations numbers input rule pos with
  | case1 rule pos stop h => exact turns_head h rfl rfl .refl
  | case2 rule pos token stop h hlt hright => exact turns_head h rfl (if_pos hright) .refl
  | case3 rule pos token stop h hlt hright hident hle parsed ih =>
    refine turns_head h rfl ((if_neg hright).trans (if_pos hident)) ?_
    exact (declaration_turns numbers input sheet rule token stop).trans ih
  | case4 rule pos token stop h hlt hright hident ih =>
    exact turns_head h rfl ((if_neg hright).trans (if_neg hident)) ih

theorem nested_turns (depth pos : ℕ) : Turns numbers input (.nested sheet depth, pos)
    (.rules sheet, skipNested numbers input depth pos) := by
  fun_induction skipNested numbers input depth pos with
  | case1 depth pos stop h => exact turns_head h rfl rfl .refl
  | case2 depth pos token stop h hlt hleft ih => exact turns_head h rfl (if_pos hleft) ih
  | case3 pos token stop h hlt hleft hright =>
    exact turns_head h rfl ((if_neg hleft).trans (if_pos hright)) .refl
  | case4 depth pos token stop h hlt hleft hright hdepth ih =>
    exact turns_head h rfl ((if_neg hleft).trans ((if_pos hright).trans (if_neg hdepth))) ih
  | case5 depth pos token stop h hlt hleft hright ih =>
    exact turns_head h rfl ((if_neg hleft).trans (if_neg hright)) ih

theorem selector_turns (pos : ℕ) : Turns numbers input (.selector sheet rule, pos)
    (match skipTo numbers input (fun type => type == .leftBrace) pos with
      | (none, stop) => (.rules sheet, stop)
      | (some _, stop) => (.block sheet rule, stop)) := by
  fun_induction skipTo numbers input (fun type => type == .leftBrace) pos with
  | case1 pos stop h => exact turns_head h rfl rfl .refl
  | case2 pos token stop h hlt hf => exact turns_head h rfl (if_pos (beq_iff_eq.mp hf)) .refl
  | case3 pos token stop h hlt hf ih =>
    exact turns_head h rfl (if_neg fun heq => hf (beq_iff_eq.mpr heq)) ih

theorem atRule_turns (pos : ℕ) : Turns numbers input (.atRule sheet, pos)
    (.rules sheet, cssParseAtRule numbers input pos) := by
  unfold cssParseAtRule
  fun_induction skipTo numbers input (fun type => type == .semicolon || type == .leftBrace) pos with
  | case1 pos stop h => exact turns_head h rfl rfl .refl
  | case2 pos token stop h hlt hf =>
    simp only
    split_ifs with hleft
    · exact turns_head h rfl (if_pos hleft) (nested_turns numbers input sheet 1 stop)
    · simp only [Bool.or_eq_true, beq_iff_eq, hleft, or_false] at hf
      exact turns_head h rfl ((if_neg hleft).trans (if_pos hf)) .refl
  | case3 pos token stop h hlt hf ih =>
    simp only [Bool.or_eq_true, beq_iff_eq, not_or] at hf
    exact turns_head h rfl ((if_neg hf.2).trans (if_neg hf.1)) ih

/-- **A rule** is read between two turns of the loop of `css_parser_parse`. -/
theorem rule_turns (first : CssToken) (pos : ℕ) :
    Turns numbers input ((Loop.rules sheet).step (some first), pos)
      (.rules (cssParseRule numbers input sheet first pos).1,
        (cssParseRule numbers input sheet first pos).2) := by
  rw [Loop.step, cssParseRule]
  split_ifs with hat hfirst
  · exact atRule_turns numbers input sheet pos
  · have hselector := selector_turns numbers input sheet (ruleOf first) pos
    unfold cssParseStyleRule
    simp only
    cases hskip : skipTo numbers input (fun type => type == .leftBrace) pos with
    | mk token stop =>
      rw [hskip] at hselector
      cases token with
      | none => exact hselector
      | some token => exact hselector.trans (block_turns numbers input sheet (ruleOf first) stop)
  · exact .refl

theorem rules_turns (sheet : CssStylesheet) (pos : ℕ) :
    ∃ stop, Turns numbers input (.rules sheet, pos)
      (.done (readRules numbers input sheet pos), stop) := by
  fun_induction readRules numbers input sheet pos with
  | case1 sheet pos stop h => exact ⟨stop, turns_head h rfl rfl .refl⟩
  | case2 sheet pos token stop h hlt hle parsed ih =>
    obtain ⟨last, hturns⟩ := ih
    exact ⟨last, turns_head h rfl rfl ((rule_turns numbers input sheet token stop).trans hturns)⟩

/-- **The parser** makes turns from the beginning of the string to its end. -/
theorem parse_turns (css : List UInt8) : ∃ stop,
    Turns numbers (css.takeWhile (· != 0)) (.rules ⟨[]⟩, 0)
      (.done (cssParserParse numbers css), stop) :=
  rules_turns numbers _ ⟨[]⟩ 0

/-! ### The tokens -/

/-- All tokens from a position on. -/
def tokensFrom (pos : ℕ) : List CssToken :=
  match h : cssNextToken input pos numbers with
  | (none, _) => []
  | (some token, stop) =>
    have := nextToken_lt numbers h
    token :: tokensFrom stop
termination_by input.length - pos

/-- The stylesheet if there are no more tokens. -/
def Loop.finish : Loop → CssStylesheet
  | .rules sheet | .atRule sheet | .nested sheet _ | .selector sheet _ | .done sheet => sheet
  | .block sheet rule | .colon sheet rule _ => cssStylesheetAddRule sheet rule
  | .value sheet rule property text => cssStylesheetAddRule sheet (addValue rule property text)

/-- The tokens are handled one after the other. -/
def Loop.take (loop : Loop) (tokens : List CssToken) : Loop :=
  tokens.foldl (fun loop token => loop.step (some token)) loop

@[simp] theorem take_nil (loop : Loop) : loop.take [] = loop := rfl

@[simp] theorem take_cons (loop : Loop) (token : CssToken) (tokens : List CssToken) :
    loop.take (token :: tokens) = (loop.step (some token)).take tokens := rfl

theorem take_append (loop : Loop) (tokens tokens' : List CssToken) :
    loop.take (tokens ++ tokens') = (loop.take tokens).take tokens' := List.foldl_append

/-- Only `NULL` ends the parser. -/
theorem step_isDone {loop : Loop} (token : CssToken) (h : loop.isDone = false) :
    (loop.step (some token)).isDone = false := by
  cases loop with
  | done sheet => cases h
  | rules sheet | atRule sheet | selector sheet rule | block sheet rule | colon sheet rule property
    | value sheet rule property text | nested sheet depth =>
    simp only [Loop.step]
    split_ifs <;> rfl

theorem tokensFrom_eq (pos : ℕ) : tokensFrom numbers input pos =
    match cssNextToken input pos numbers with
    | (none, _) => []
    | (some token, stop) => token :: tokensFrom numbers input stop := by
  rw [tokensFrom]
  split <;> rename_i h <;> simp only [h]

/-- The first of the tokens is the next one. -/
theorem tokensFrom_cons {pos : ℕ} {token : CssToken} {rest : List CssToken} :
    tokensFrom numbers input pos = token :: rest ↔ ∃ stop,
      cssNextToken input pos numbers = (some token, stop) ∧
        tokensFrom numbers input stop = rest := by
  rw [tokensFrom_eq]
  cases cssNextToken input pos numbers with
  | mk next stop => cases next <;> simp

/-- Where there is no token, there is none behind it. -/
theorem tokensFrom_end {pos stop : ℕ} (h : cssNextToken input pos numbers = (none, stop)) :
    tokensFrom numbers input stop = [] := by
  have hend : input.length ≤ stop := by
    unfold cssNextToken at h
    split at h
    · rename_i hpos
      cases h
      exact hpos
    · split at h
      · rename_i hnone
        cases h
        exact List.getElem?_eq_none_iff.mp hnone
      · cases h
  rw [tokensFrom_eq, cssNextToken, if_pos hend]

/-- What a run of turns has taken of the tokens, if there still are some. -/
theorem turns_tokens {loop : Loop} {pos : ℕ} {s : Loop × ℕ}
    (h : Turns numbers input (loop, pos) s) : tokensFrom numbers input s.2 = [] ∨
      ∃ before, tokensFrom numbers input pos = before ++ tokensFrom numbers input s.2 ∧
        s.1 = loop.take before := by
  induction h with
  | refl => exact .inr ⟨[], rfl, rfl⟩
  | @tail s _ _ hturn ih =>
    obtain ⟨-, rfl⟩ := hturn
    cases hnext : cssNextToken input s.2 numbers with
    | mk token stop =>
      cases token with
      | none => exact .inl (tokensFrom_end numbers input hnext)
      | some token =>
        have hcons : tokensFrom numbers input s.2 = token :: tokensFrom numbers input stop :=
          (tokensFrom_cons numbers input).mpr ⟨stop, hnext, rfl⟩
        rcases ih with hnil | ⟨before, htokens, hloop⟩
        · rw [hcons] at hnil
          cases hnil
        · refine .inr ⟨before ++ [token], ?_, ?_⟩
          · rw [htokens, hcons, List.append_assoc]
            rfl
          · rw [hloop, take_append]
            rfl

/-- Turns take the tokens one after the other. -/
theorem tokens_turns {loop : Loop} {pos : ℕ} {before rest : List CssToken}
    (hloop : loop.isDone = false) (h : tokensFrom numbers input pos = before ++ rest) :
    ∃ stop, Turns numbers input (loop, pos) (loop.take before, stop) ∧
      tokensFrom numbers input stop = rest := by
  induction before generalizing loop pos with
  | nil => exact ⟨pos, .refl, h⟩
  | cons token before ih =>
    obtain ⟨next, hnext, htokens⟩ := (tokensFrom_cons numbers input).mp h
    obtain ⟨stop, hturns, hrest⟩ := ih (step_isDone token hloop) htokens
    exact ⟨stop, turns_head hnext hloop rfl hturns, hrest⟩

/-- The stylesheet that a loop at a position leads to. -/
def outcome (s : Loop × ℕ) : CssStylesheet := (s.1.take (tokensFrom numbers input s.2)).finish

/-- A turn does not change where the loops lead to. -/
theorem Turn.outcome {s s' : Loop × ℕ} (h : Turn numbers input s s') :
    outcome numbers input s = outcome numbers input s' := by
  obtain ⟨loop, pos⟩ := s
  obtain ⟨-, rfl⟩ := h
  cases hnext : cssNextToken input pos numbers with
  | mk token stop =>
    unfold Css.outcome
    simp only
    cases token with
    | none =>
      rw [tokensFrom_end numbers input hnext, tokensFrom_eq, hnext]
      cases loop <;> rfl
    | some token =>
      rw [tokensFrom_eq numbers input pos, hnext]
      rfl

/-- **The stylesheet** is what the loops make of the tokens, one after the other. -/
theorem parse_tokens (css : List UInt8) : cssParserParse numbers css =
    ((Loop.rules ⟨[]⟩).take (tokensFrom numbers (css.takeWhile (· != 0)) 0)).finish := by
  obtain ⟨stop, hturns⟩ := parse_turns numbers css
  have hsame : ∀ s, Turns numbers (css.takeWhile (· != 0)) (.rules ⟨[]⟩, 0) s →
      outcome numbers (css.takeWhile (· != 0)) (.rules ⟨[]⟩, 0) =
        outcome numbers (css.takeWhile (· != 0)) s := by
    intro s hs
    induction hs with
    | refl => rfl
    | tail _ hturn ih => exact ih.trans hturn.outcome
  have hdone : ∀ sheet tokens, (Loop.done sheet).take tokens = .done sheet := by
    intro sheet tokens
    induction tokens with
    | nil => rfl
    | cons token tokens ih => exact ih
  have hend := hsame _ hturns
  rw [outcome, outcome, hdone] at hend
  exact hend.symm

end

end PrismaticOS.Css
