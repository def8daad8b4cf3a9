import PrismaticOS.Css.TokenTexts

/-!
# The specificity of rules

`css_parse_style_rule` makes a rule without selectors, whose specificity is zero, and puts an
element in front of them, whatever the token is.

## The model

An `Origin` is the token that a rule is made of, with the one in front of it. The origins of the
rules are found among the tokens by their places.

## What is proved

* `heads_parse` — every rule has the specificity zero, and one selector, an element with the text
  of its token.
* `rules_sound_iff` — the specificities and the selectors are right exactly if there are no rules.
-/

namespace PrismaticOS.Css

open PrismaticOS.Libc

/-- The token that a rule is made of, and the one in front of it. -/
structure Origin where
  /-- The token in front. -/
  before : Option CssToken
  /-- The token. -/
  first : CssToken

/-- A rule is made of such a token. -/
def isFirst : CssTokenType → Bool
  | .ident | .hash => true
  | _ => false

/-- A dot directly in front of a token. -/
def Origin.hasDot (origin : Origin) : Bool :=
  origin.before.any fun token =>
    token.type == .delim && token.value == some [chr '.'] && token.offset + 1 == origin.first.offset

/-- The selector that is meant: `#name` is an id, `.name` a class, and a bare identifier an
element. -/
def Origin.selectorType (origin : Origin) : CssSelectorType :=
  if origin.first.type = .hash then .id else if origin.hasDot then .classOf else .element

/-- The origin that a token at a place is, if it is one: an identifier or a hash outside of rules,
with a brace behind it. -/
def originAt (place : Place) (before : Option CssToken) (token : CssToken)
    (tokens : List CssToken) : List Origin :=
  if place = .top ∧ isFirst token.type ∧ .leftBrace ∈ tokens.map CssToken.type then
    [⟨before, token⟩] else []

/-- The tokens that rules are made of. -/
def origins : Place → Option CssToken → List CssToken → List Origin
  | _, _, [] => []
  | place, before, token :: tokens =>
    originAt place before token tokens ++ origins (place.next token.type) (some token) tokens

/-- The selectors and the specificity of a rule. -/
structure Head where
  /-- The selectors. -/
  selectors : List CssSelector
  /-- The specificity. -/
  specificity : UInt32

/-- What the declarations do not change. -/
def CssRule.head (rule : CssRule) : Head := ⟨rule.selectors, rule.specificity⟩

/-- What `css_parse_style_rule` makes of a token. -/
def Origin.head (origin : Origin) : Head := ⟨[⟨.element, origin.first.value⟩], 0⟩

/-- The specificity is that of the selectors, and the selectors are the ones that are meant. -/
def RuleSound (rule : CssRule) (origin : Origin) : Prop :=
  rule.specificity = cssSelectorCalculateSpecificity rule.selectors ∧
    ∀ selector ∈ rule.selectors, selector.type = origin.selectorType

/-- All rules are sound. The one added last is in front. -/
def RulesSound (numbers : NumberReader) (css : List UInt8) : Prop :=
  List.Forall₂ RuleSound (cssParserParse numbers css).rules.reverse
    (origins .top none (tokensFrom numbers (css.takeWhile (· != 0)) 0))

section
variable {numbers : NumberReader} {loop : Loop} {place : Place} {before : Option CssToken}
  {token : CssToken} {tokens : List CssToken} {sheet : CssStylesheet} {rule : CssRule}

@[simp] theorem head_addValue (property : CssToken) (value : Option Str) :
    (addValue rule property value).head = rule.head := by
  cases value with
  | none => rfl
  | some value =>
    unfold addValue
    cases property.value <;> rfl

/-- The rules that are complete. -/
def Loop.made : Loop → List CssRule
  | .rules sheet | .atRule sheet | .nested sheet _ | .selector sheet _ | .block sheet _
    | .colon sheet _ _ | .value sheet _ _ _ | .done sheet => sheet.rules

/-- The rule that is to be added; one without a brace is not. -/
def Loop.pending : Loop → List CssToken → List CssRule
  | .selector _ rule, tokens => if .leftBrace ∈ tokens.map CssToken.type then [rule] else []
  | .block _ rule, _ | .colon _ rule _, _ | .value _ rule _ _, _ => [rule]
  | _, _ => []

theorem isFirst_iff {type : CssTokenType} :
    isFirst type = true ↔ type = .ident ∨ type = .hash := by
  cases type <;> simp [isFirst]

/-- A token moves on what is complete, what is to be added and what is still to come. -/
theorem heads_step (before : Option CssToken) (token : CssToken) (tokens : List CssToken)
    (hloop : loop.isDone = false) :
    ((loop.step (some token)).pending tokens ++ (loop.step (some token)).made).map CssRule.head =
      (originAt loop.place before token tokens).map Origin.head ++
        (loop.pending (token :: tokens) ++ loop.made).map CssRule.head := by
  cases loop with
  | done sheet => cases hloop
  | rules sheet =>
    by_cases hat : token.type = .atKeyword
    · simp [Loop.step, Loop.pending, Loop.made, originAt, isFirst, hat]
    · by_cases hfirst : token.type = .ident ∨ token.type = .hash
      · rw [Loop.step, if_neg hat, if_pos hfirst, originAt, isFirst_iff.mpr hfirst]
        by_cases hbrace : .leftBrace ∈ tokens.map CssToken.type
        · simp only [Loop.pending, Loop.made, Loop.place, hbrace]
          rfl
        · simp only [Loop.pending, Loop.made, Loop.place, hbrace]
          rfl
      · rw [Loop.step, if_neg hat, if_neg hfirst, originAt, if_neg]
        · rfl
        · rintro ⟨-, hident, -⟩
          exact hfirst (isFirst_iff.mp hident)
  | selector sheet rule =>
    by_cases hleft : token.type = .leftBrace
    · simp [Loop.step, Loop.pending, Loop.made, Loop.place, originAt, hleft]
    · have hne : CssTokenType.leftBrace ≠ token.type := Ne.symm hleft
      simp [Loop.step, Loop.pending, Loop.made, Loop.place, originAt, hleft, hne]
  | atRule sheet | nested sheet depth | block sheet rule | colon sheet rule property
    | value sheet rule property text =>
    simp only [Loop.step]
    split_ifs <;> simp [Loop.pending, Loop.made, Loop.place, originAt, cssStylesheetAddRule]

/-- What the tokens lead to: the rules that are complete, behind the one that is to be added and the
ones still to come. -/
theorem heads_take (before : Option CssToken) (tokens : List CssToken)
    (hloop : loop.isDone = false) :
    (loop.take tokens).finish.rules.map CssRule.head =
      (origins loop.place before tokens).reverse.map Origin.head ++
        (loop.pending tokens ++ loop.made).map CssRule.head := by
  induction tokens generalizing loop before with
  | nil =>
    cases loop with
    | done sheet => cases hloop
    | rules sheet | atRule sheet | nested sheet depth | selector sheet rule | block sheet rule
      | colon sheet rule property | value sheet rule property text =>
      simp [Loop.finish, Loop.pending, Loop.made, origins, cssStylesheetAddRule]
  | cons token tokens ih =>
    have hcons : origins loop.place before (token :: tokens) =
        originAt loop.place before token tokens ++
          origins (loop.place.next token.type) (some token) tokens := rfl
    have hshort : (originAt loop.place before token tokens).reverse =
        originAt loop.place before token tokens := by
      unfold originAt
      split_ifs <;> rfl
    rw [take_cons, ih (some token) (step_isDone token hloop), step_place token hloop,
      heads_step before token tokens hloop, hcons, List.reverse_append, hshort]
    simp only [List.map_append, List.append_assoc]

/-- **The rules** that are made, with their selectors and specificities. -/
theorem heads_parse (numbers : NumberReader) (css : List UInt8) :
    (cssParserParse numbers css).rules.reverse.map CssRule.head =
      (origins .top none (tokensFrom numbers (css.takeWhile (· != 0)) 0)).map Origin.head := by
  have hdone : (Loop.rules ⟨[]⟩).isDone = false := rfl
  rw [parse_tokens, List.map_reverse, heads_take none _ hdone]
  simp [Loop.pending, Loop.made, Loop.place]

/-- No rule is sound. -/
theorem not_ruleSound {origin : Origin} (h : rule.head = origin.head) :
    ¬ RuleSound rule origin := by
  rintro ⟨hspecificity, -⟩
  obtain ⟨hselectors, hzero⟩ := Head.mk.inj h
  change rule.selectors = _ at hselectors
  rw [hselectors, hzero] at hspecificity
  cases hspecificity

/-- Without rules all of them are. -/
theorem rulesSound_iff_origins (numbers : NumberReader) (css : List UInt8) :
    RulesSound numbers css ↔
      origins .top none (tokensFrom numbers (css.takeWhile (· != 0)) 0) = [] := by
  have hheads := heads_parse numbers css
  unfold RulesSound
  generalize (cssParserParse numbers css).rules.reverse = rules at hheads ⊢
  generalize origins .top none (tokensFrom numbers (css.takeWhile (· != 0)) 0) = made at hheads ⊢
  constructor
  · intro h
    cases h with
    | nil => rfl
    | cons hsound _ => exact absurd hsound (not_ruleSound (List.cons.inj hheads).1)
  · rintro rfl
    rw [List.map_eq_nil_iff.mp hheads]
    exact .nil

theorem originAt_nil : originAt place before token tokens = [] ↔
    ¬ (place = .top ∧ isFirst token.type ∧ .leftBrace ∈ tokens.map CssToken.type) := by
  unfold originAt
  split_ifs with h
  · exact iff_of_false nofun (not_not_intro h)
  · exact iff_of_true rfl h

/-- No rule begins: outside of rules there is no identifier and no hash with a brace behind it. -/
def NoRule (types : List CssTokenType) : Prop :=
  ∀ before first after, types = before ++ first :: after → placeAfter before = .top →
    first = .ident ∨ first = .hash → .leftBrace ∉ after

/-- The same from any place on. -/
theorem origins_nil_iff (before : Option CssToken) (place : Place) (tokens : List CssToken) :
    origins place before tokens = [] ↔ ∀ taken first after,
      tokens.map CssToken.type = taken ++ first :: after → taken.foldl Place.next place = .top →
        first = .ident ∨ first = .hash → .leftBrace ∉ after := by
  induction tokens generalizing place before with
  | nil =>
    refine iff_of_true rfl fun taken first after h => ?_
    simp at h
  | cons token tokens ih =>
    rw [origins, List.append_eq_nil_iff, ih]
    constructor
    · rintro ⟨hhead, htail⟩ taken first after hsplit hplace hfirst
      cases taken with
      | nil =>
        obtain ⟨rfl, rfl⟩ := List.cons.inj hsplit
        intro hbrace
        exact originAt_nil.mp hhead ⟨hplace, isFirst_iff.mpr hfirst, hbrace⟩
      | cons type taken =>
        obtain ⟨rfl, hrest⟩ := List.cons.inj hsplit
        exact htail taken first after hrest hplace hfirst
    · intro h
      constructor
      · apply originAt_nil.mpr
        rintro ⟨hplace, hfirst, hbrace⟩
        exact h [] _ _ rfl hplace (isFirst_iff.mp hfirst) hbrace
      · intro taken first after hsplit
        exact h (token.type :: taken) first after (by rw [List.map_cons, hsplit, List.cons_append])

/-- **Sound rules.** The specificities and the selectors of all rules are right exactly if there
are no rules. -/
theorem rules_sound_iff (numbers : NumberReader) (css : List UInt8) :
    RulesSound numbers css ↔
      NoRule ((tokensFrom numbers (css.takeWhile (· != 0)) 0).map CssToken.type) :=
  (rulesSound_iff_origins numbers css).trans (origins_nil_iff none .top _)

/-- The tokens of the rule `a {}`. -/
theorem tokensFrom_braces : ∃ after,
    (tokensFrom wordReader (str "a\x7b\x7d") 0).map CssToken.type =
      [] ++ .ident :: .leftBrace :: after := by
  rw [tokensFrom_of_drop (c := chr 'a') rfl (by decide) rfl,
    tokensFrom_of_drop (c := chr '\x7b') rfl (by decide) rfl]
  exact ⟨_, rfl⟩

/-- The rule has the specificity zero, and its selector the specificity ten. -/
theorem rule_unsound : ¬ ∀ (numbers : NumberReader) (css : List UInt8), RulesSound numbers css := by
  intro h
  obtain ⟨after, htokens⟩ := tokensFrom_braces
  have hnone := (rulesSound_iff_origins _ _).mp (h wordReader (str "a\x7b\x7d"))
  exact (origins_nil_iff none .top _).mp hnone _ _ _ htokens rfl (.inl rfl) List.mem_cons_self

end

end PrismaticOS.Css
