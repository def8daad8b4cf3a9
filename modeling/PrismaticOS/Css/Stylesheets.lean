import Mathlib.Data.List.Forall2
import PrismaticOS.Css.Parser

/-!
# The rules of a stylesheet

A stylesheet of simple rules, `sel { p: v; ... }`, and what `css_parser_parse` makes of it.

## The model

The text of a stylesheet is a sequence of items, identifiers and marks, with any spaces around
them (`Spells`).

## What is proved

* `next_item` — the tokens are the items.
* `readDeclarations_block` — the declarations of a block. Where the last one has no semicolon,
  `css_parse_declaration` takes the closing brace with it, and the block does not end.
* `stylesheet_rules` — the stylesheet has the rules of the text, each with its own
  declarations, exactly if every block but the last one has no declaration or a semicolon after
  the last one.
-/

namespace PrismaticOS.Css

open PrismaticOS.Libc

/-! ### Stylesheets as text -/

/-- A rule, as it is written. -/
structure SourceRule where
  /-- The selector. -/
  selector : Str
  /-- The properties and their values. -/
  declarations : List (Str × Str)
  /-- There is a semicolon after the last value. -/
  semicolon : Bool

/-- The parts of a text. -/
inductive Item where
  /-- An identifier. -/
  | ident (name : Str)
  /-- `:`. -/
  | colon
  /-- `;`. -/
  | semicolon
  /-- An opening brace. -/
  | leftBrace
  /-- A closing brace. -/
  | rightBrace

/-- The characters of an item. -/
def Item.text : Item → Str
  | .ident name => name
  | .colon => [chr ':']
  | .semicolon => [chr ';']
  | .leftBrace => [chr '\x7b']
  | .rightBrace => [chr '\x7d']

/-- The type of the token of an item. -/
def Item.type : Item → CssTokenType
  | .ident _ => .ident
  | .colon => .colon
  | .semicolon => .semicolon
  | .leftBrace => .leftBrace
  | .rightBrace => .rightBrace

/-- The text of the token of an item. -/
def Item.value : Item → Option Str
  | .ident name => some name
  | _ => none

/-- An identifier begins with a letter. -/
def Item.Ok : Item → Prop
  | .ident name => ∃ c t, name = c :: t ∧ isalpha c = true ∧ ∀ b ∈ t, isIdentChar b = true
  | _ => True

/-- The items of the declarations of a block. -/
def declarationItems (semicolon : Bool) : List (Str × Str) → List Item
  | [] => []
  | [(p, v)] => .ident p :: .colon :: .ident v :: if semicolon then [.semicolon] else []
  | (p, v) :: d :: ds =>
    .ident p :: .colon :: .ident v :: .semicolon :: declarationItems semicolon (d :: ds)

/-- The items of a block, after its opening brace. -/
def SourceRule.block (r : SourceRule) : List Item :=
  declarationItems r.semicolon r.declarations ++ [.rightBrace]

/-- The items of a rule. -/
def SourceRule.items (r : SourceRule) : List Item :=
  .ident r.selector :: .leftBrace :: r.block

/-- A text is the items one after the other, with spaces where one likes. -/
inductive Spells : List Item → Str → Prop where
  /-- Spaces. -/
  | nil {gap : Str} (hgap : ∀ c ∈ gap, isspace c = true) : Spells [] gap
  /-- Spaces and an item: what follows an identifier does not go on with it. -/
  | cons {gap rest : Str} {item : Item} {items : List Item}
      (hgap : ∀ c ∈ gap, isspace c = true) (hitem : item.Ok) (hrest : Spells items rest)
      (hend : ∀ name, item = .ident name → ∀ c, rest.head? = some c → isIdentChar c = false) :
      Spells (item :: items) (gap ++ (item.text ++ rest))

/-! ### Tokens -/

section
variable {numbers : NumberReader} {input : Str} {pos : ℕ}

/-- The next character. -/
theorem getElem?_of_drop {c : UInt8} {r : Str} (h : input.drop pos = c :: r) :
    input[pos]? = some c := by
  rw [← List.head?_drop, h]
  rfl

/-- What follows it. -/
theorem drop_succ {c : UInt8} {r : Str} (h : input.drop pos = c :: r) :
    input.drop (pos + 1) = r := by
  rw [← List.drop_drop, h]
  rfl

theorem drop_append {a r : Str} (h : input.drop pos = a ++ r) :
    input.drop (pos + a.length) = r := by
  rw [← List.drop_drop, h, List.drop_left]

theorem looksAtA_of_drop {f : UInt8 → Bool} {c : UInt8} {r : Str}
    (h : input.drop pos = c :: r) : looksAtA input pos f = f c := by
  rw [looksAtA, getElem?_of_drop h]
  rfl

theorem looksAt_of_drop {b c : UInt8} {r : Str} (h : input.drop pos = c :: r) :
    looksAt input pos b = (c == b) := by
  rw [looksAt, getElem?_of_drop h]
  rfl

theorem lt_of_drop {c : UInt8} {r : Str} (h : input.drop pos = c :: r) : pos < input.length := by
  by_contra hlong
  rw [List.drop_eq_nil_of_le (not_lt.mp hlong)] at h
  cases h

/-- Spaces are passed. -/
theorem skipBlank_gap {gap r : Str} (hgap : ∀ c ∈ gap, isspace c = true)
    (hr : ∀ c, r.head? = some c → isspace c = false ∧ c ≠ chr '/')
    (h : input.drop pos = gap ++ r) : skipBlank input pos = pos + gap.length := by
  induction gap generalizing pos with
  | nil =>
    rw [skipBlank]
    split_ifs with hpos hspace hcomment
    · cases r with
      | nil =>
        rw [looksAtA, ← List.head?_drop, h] at hspace
        cases hspace
      | cons c r =>
        rw [looksAtA_of_drop h, (hr c rfl).1] at hspace
        cases hspace
    · cases r with
      | nil =>
        rw [looksAt, ← List.head?_drop, h] at hcomment
        cases hcomment
      | cons c r =>
        rw [looksAt_of_drop h, beq_eq_false_iff_ne.mpr (hr c rfl).2] at hcomment
        cases hcomment
    · rfl
    · rfl
  | cons c gap ih =>
    have hspace : isspace c = true := hgap c List.mem_cons_self
    rw [skipBlank, dif_pos (lt_of_drop h), if_pos (by rw [looksAtA_of_drop h, hspace]),
      ih (fun b hb => hgap b (List.mem_cons_of_mem c hb)) (drop_succ h), List.length_cons]
    omega

/-- Behind spaces a token begins at the first character that is neither a space nor a slash. -/
theorem nextToken_gap {gap r : Str} {c : UInt8} (hgap : ∀ b ∈ gap, isspace b = true)
    (hc : isspace c = false ∧ c ≠ chr '/') (h : input.drop pos = gap ++ c :: r) :
    cssNextToken input pos numbers =
      (some (cssToken input (pos + gap.length) numbers c).1,
        (cssToken input (pos + gap.length) numbers c).2) := by
  have hpos : pos < input.length := by
    by_contra hlong
    rw [List.drop_eq_nil_of_le (not_lt.mp hlong)] at h
    simp at h
  have hblank : skipBlank input pos = pos + gap.length := by
    apply skipBlank_gap hgap _ h
    intro b hb
    cases hb
    exact hc
  have hnext : input[pos + gap.length]? = some c := getElem?_of_drop (drop_append h)
  rw [cssNextToken, if_neg (not_le.mpr hpos)]
  simp only [hblank, hnext]

/-- The characters an item begins with. -/
theorem Item.text_head {item : Item} (h : item.Ok) : ∃ c t, item.text = c :: t ∧
    isspace c = false ∧ c ≠ chr '/' ∧ c ≠ chr '(' := by
  cases item with
  | ident name =>
    obtain ⟨c, t, rfl, halpha, -⟩ := h
    exact ⟨c, t, rfl, isspace_of_isalpha halpha, ne_of_isalpha halpha (by decide),
      ne_of_isalpha halpha (by decide)⟩
  | colon => exact ⟨chr ':', [], rfl, by decide, by decide, by decide⟩
  | semicolon => exact ⟨chr ';', [], rfl, by decide, by decide, by decide⟩
  | leftBrace => exact ⟨chr '\x7b', [], rfl, by decide, by decide, by decide⟩
  | rightBrace => exact ⟨chr '\x7d', [], rfl, by decide, by decide, by decide⟩

/-- An identifier at the position. -/
theorem parseIdent_of_drop {c : UInt8} {t r : Str} (hc : isIdentStart c = true)
    (ht : ∀ b ∈ t, isIdentChar b = true) (hr : ∀ b, r.head? = some b → isIdentChar b = false)
    (h : input.drop pos = c :: (t ++ r)) :
    cssParseIdent input pos = (some (c :: t), pos + 1 + t.length) := by
  have hskip : skipWhile input (pos + 1) isIdentChar = pos + 1 + t.length := by
    rw [skipWhile, drop_succ h, takeWhile_to ht hr]
  have hslice : slice input pos (pos + 1 + t.length) = c :: t := by
    rw [slice, h, show pos + 1 + t.length - pos = t.length + 1 by omega, List.take_succ_cons,
      List.take_left]
  rw [cssParseIdent, if_pos (by rw [looksAtA_of_drop h, hc]), hskip, hslice]

theorem singleToken_of_isalpha {c : UInt8} (h : isalpha c = true) : singleToken c = none := by
  have hne : ∀ d, isalpha d = false → c ≠ d := fun d hd => ne_of_isalpha h hd
  simp only [singleToken, hne (chr ':') (by decide), hne (chr ';') (by decide),
    hne (chr ',') (by decide), hne (chr '(') (by decide), hne (chr ')') (by decide),
    hne (chr '[') (by decide), hne (chr ']') (by decide), hne (chr '\x7b') (by decide),
    hne (chr '\x7d') (by decide), if_false]

theorem doubleToken_of_isalpha {c d : UInt8} (h : isalpha c = true) : doubleToken c d = none := by
  have hne : ∀ d, isalpha d = false → c ≠ d := fun d hd => ne_of_isalpha h hd
  simp only [doubleToken, hne (chr '~') (by decide), hne (chr '|') (by decide),
    hne (chr '^') (by decide), hne (chr '$') (by decide), hne (chr '*') (by decide), false_and,
    if_false]

/-- A letter whose small letter is `d`. -/
theorem isIdentChar_of_tolower {c d : UInt8} (h : tolower c = d) (hd : isIdentChar d = true) :
    isIdentChar c = true := by
  unfold tolower at h
  split_ifs at h with hupper
  · simp [isIdentChar, isalnum, isalpha, hupper]
  · rw [h]
    exact hd

/-- Nothing of the form `rl(` follows in any case: a letter would belong to the identifier. -/
theorem not_word {w t r : Str} (hw : ∀ a ∈ w, isIdentChar a = true)
    (ht : ∀ b ∈ t, isIdentChar b = true)
    (hr : ∀ b, r.head? = some b → isIdentChar b = false ∧ b ≠ chr '(') :
    ((t ++ r).take (w.length + 1)).map tolower ≠ w ++ [chr '('] := by
  induction w generalizing t with
  | nil =>
    intro heq
    cases t with
    | nil =>
      cases r with
      | nil => cases heq
      | cons b r =>
        have hlow : tolower b = chr '(' := by simpa using heq
        exact (hr b rfl).2 (tolower_eq hlow (by decide))
    | cons b t =>
      have hlow : tolower b = chr '(' := by simpa using heq
      have hb := ht b List.mem_cons_self
      rw [tolower_eq hlow (by decide)] at hb
      revert hb
      decide
  | cons a w ih =>
    intro heq
    cases t with
    | nil =>
      cases r with
      | nil => cases heq
      | cons b r =>
        simp only [List.nil_append, List.length_cons, List.take_succ_cons, List.map_cons,
          List.cons_append, List.cons.injEq] at heq
        have hb := isIdentChar_of_tolower heq.1 (hw a List.mem_cons_self)
        rw [(hr b rfl).1] at hb
        cases hb
    | cons b t =>
      simp only [List.cons_append, List.length_cons, List.take_succ_cons, List.map_cons,
        List.cons.injEq] at heq
      exact ih (fun a ha => hw a (List.mem_cons_of_mem _ ha))
        (fun b hb => ht b (List.mem_cons_of_mem _ hb)) heq.2

/-- An identifier that a parenthesis does not follow is not the begin of a URL. -/
theorem not_url {c : UInt8} {t r : Str} (ht : ∀ b ∈ t, isIdentChar b = true)
    (hr : ∀ b, r.head? = some b → isIdentChar b = false ∧ b ≠ chr '(')
    (h : input.drop pos = c :: (t ++ r)) :
    sameCase (slice input pos (pos + 4)) (str "url(") = false := by
  by_contra hurl
  have hword : (str "url(").map tolower = chr 'u' :: ([chr 'r', chr 'l'] ++ [chr '(']) := rfl
  simp only [sameCase, hword, slice, h, Nat.add_sub_cancel_left, Bool.not_eq_false, beq_iff_eq,
    List.take_succ_cons, List.map_cons, List.cons.injEq] at hurl
  exact not_word (w := [chr 'r', chr 'l']) (by decide +kernel) ht hr hurl.2

/-- A token of one character. -/
theorem cssToken_single {c : UInt8} {type : CssTokenType} (h : singleToken c = some type) :
    cssToken input pos numbers c = (⟨type, none, pos⟩, pos + 1) := by
  rw [cssToken, h]

/-- An identifier is a token. -/
theorem cssToken_ident {c : UInt8} {t r : Str} (hc : isalpha c = true)
    (ht : ∀ b ∈ t, isIdentChar b = true)
    (hr : ∀ b, r.head? = some b → isIdentChar b = false ∧ b ≠ chr '(')
    (h : input.drop pos = c :: (t ++ r)) :
    cssToken input pos numbers c = (⟨.ident, some (c :: t), pos⟩, pos + 1 + t.length) := by
  have hdouble : input[pos + 1]?.bind (doubleToken c) = none := by
    cases input[pos + 1]? with
    | none => rfl
    | some d => exact doubleToken_of_isalpha hc
  have hident : tokenOr pos .ident c (cssParseIdent input pos) =
      (⟨.ident, some (c :: t), pos⟩, pos + 1 + t.length) := by
    rw [parseIdent_of_drop (by simp [isIdentStart, hc]) ht (fun b hb => (hr b hb).1) h]
    rfl
  have hne : ∀ d, isalpha d = false → c ≠ d := fun d hd => ne_of_isalpha hc hd
  have hnumber : ¬ (c = chr '-' ∨ isdigit c = true) := by
    rw [isdigit_of_isalpha hc]
    simp [hne (chr '-') (by decide)]
  have hquote : ¬ isQuote c = true := by
    simp [isQuote, hne (chr '"') (by decide), hne (chr '\'') (by decide)]
  rw [cssToken, singleToken_of_isalpha hc]
  simp only [hdouble]
  rw [longToken, if_neg (hne _ (by decide)), if_neg (hne _ (by decide)),
    if_neg (hne _ (by decide)), if_neg (hne _ (by decide)), if_neg hnumber, if_neg hquote]
  split_ifs with hu hurl halpha
  · rw [not_url ht hr h] at hurl
    cases hurl
  · exact hident
  · exact hident
  · simp [hc] at halpha

variable (numbers) {item : Item} {items : List Item}

/-- What a text begins with. -/
theorem Spells.head {s : Str} (h : Spells items s) : ∀ c, s.head? = some c → c ≠ chr '(' := by
  have hspace : ∀ {gap : Str}, (∀ c ∈ gap, isspace c = true) → chr '(' ∉ gap := by
    intro gap hgap hmem
    have hsp := hgap _ hmem
    revert hsp
    decide
  cases h with
  | nil hgap =>
    rintro c hc rfl
    exact hspace hgap (List.mem_of_mem_head? hc)
  | @cons gap rest item items hgap hitem hrest hend =>
    rintro c hc rfl
    obtain ⟨b, t, htext, -, -, hb⟩ := Item.text_head hitem
    cases gap with
    | nil =>
      rw [htext] at hc
      cases hc
      exact hb rfl
    | cons g gap => exact hspace hgap (List.mem_of_mem_head? hc)

/-- **The next token** of a text is its next item. -/
theorem next_item (h : Spells (item :: items) (input.drop pos)) : ∃ token stop,
    cssNextToken input pos numbers = (some token, stop) ∧ token.type = item.type ∧
      token.value = item.value ∧ Spells items (input.drop stop) := by
  generalize hs : input.drop pos = s at h
  cases h with
  | @cons gap rest _ _ hgap hitem hrest hend =>
    obtain ⟨c, t, htext, hspace, hslash, -⟩ := Item.text_head hitem
    have hdrop : input.drop (pos + gap.length) = item.text ++ rest := drop_append hs
    have hnext : cssNextToken input pos numbers =
        (some (cssToken input (pos + gap.length) numbers c).1,
          (cssToken input (pos + gap.length) numbers c).2) :=
      nextToken_gap hgap ⟨hspace, hslash⟩ (htext ▸ hs)
    refine ⟨_, _, hnext, ?_⟩
    have hmark : ∀ type, singleToken c = some type → t = [] →
        cssToken input (pos + gap.length) numbers c =
          (⟨type, none, pos + gap.length⟩, pos + gap.length + 1) ∧
        input.drop (pos + gap.length + 1) = rest := by
      rintro type htype rfl
      exact ⟨cssToken_single htype, drop_succ (htext ▸ hdrop)⟩
    cases item with
    | ident name =>
      obtain ⟨b, u, rfl, halpha, hchars⟩ := hitem
      cases htext
      have hr : ∀ b, rest.head? = some b → isIdentChar b = false ∧ b ≠ chr '(' :=
        fun b hb => ⟨hend _ rfl b hb, hrest.head b hb⟩
      have htoken := @cssToken_ident numbers _ _ _ _ _ halpha hchars hr hdrop
      rw [htoken]
      refine ⟨rfl, rfl, ?_⟩
      have hafter : input.drop (pos + gap.length + (c :: t).length) = rest := drop_append hdrop
      rw [List.length_cons] at hafter
      rwa [show pos + gap.length + 1 + t.length = pos + gap.length + (t.length + 1) by omega,
        hafter]
    | colon | semicolon | leftBrace | rightBrace =>
      cases htext
      obtain ⟨htoken, hafter⟩ := hmark _ rfl rfl
      rw [htoken]
      exact ⟨rfl, rfl, hafter ▸ hrest⟩

/-- At the end of a text there is no token. -/
theorem next_end (h : Spells [] (input.drop pos)) : ∃ stop,
    cssNextToken input pos numbers = (none, stop) ∧ Spells [] (input.drop stop) := by
  by_cases hpos : input.length ≤ pos
  · exact ⟨pos, if_pos hpos, h⟩
  · generalize hs : input.drop pos = s at h
    cases h with
    | nil hgap =>
      have hs' : input.drop pos = s ++ [] := by rw [hs, List.append_nil]
      have hblank : skipBlank input pos = pos + s.length :=
        skipBlank_gap hgap (fun c hc => by cases hc) hs'
      have hend : input.drop (pos + s.length) = [] := drop_append hs'
      have hnone : input[pos + s.length]? = none := by rw [← List.head?_drop, hend]; rfl
      refine ⟨pos + s.length, ?_, hend ▸ .nil fun c hc => absurd hc List.not_mem_nil⟩
      rw [cssNextToken, if_neg hpos]
      simp only [hblank, hnone]

/-! ### The loops -/

variable (rule : CssRule) (sheet : CssStylesheet)

theorem readValue_eq (value : Option Str) (pos : ℕ) : readValue numbers input value pos =
    match cssNextToken input pos numbers with
    | (none, stop) => (value, stop)
    | (some token, stop) =>
      if token.type = .semicolon ∨ token.type = .rightBrace then (value, stop)
      else readValue numbers input (some (joinValue value token)) stop := by
  rw [readValue]
  split
  · rename_i heq
    rw [heq]
  · rename_i heq
    simp only [heq]

theorem readDeclarations_eq (rule : CssRule) (pos : ℕ) : readDeclarations numbers input rule pos =
    match cssNextToken input pos numbers with
    | (none, stop) => (rule, stop)
    | (some token, stop) =>
      if token.type = .rightBrace then (rule, stop)
      else if token.type = .ident then
        readDeclarations numbers input (cssParseDeclaration numbers input rule token stop).1
          (cssParseDeclaration numbers input rule token stop).2
      else readDeclarations numbers input rule stop := by
  rw [readDeclarations]
  split
  · rename_i heq
    rw [heq]
  · rename_i heq
    simp only [heq]

theorem readRules_eq (sheet : CssStylesheet) (pos : ℕ) : readRules numbers input sheet pos =
    match cssNextToken input pos numbers with
    | (none, _) => sheet
    | (some token, stop) =>
      readRules numbers input (cssParseRule numbers input sheet token stop).1
        (cssParseRule numbers input sheet token stop).2 := by
  rw [readRules]
  split
  · rename_i heq
    rw [heq]
  · rename_i heq
    simp only [heq]

theorem skipTo_eq (f : CssTokenType → Bool) (pos : ℕ) : skipTo numbers input f pos =
    match cssNextToken input pos numbers with
    | (none, stop) => (none, stop)
    | (some token, stop) =>
      if f token.type then (some token, stop) else skipTo numbers input f stop := by
  rw [skipTo]
  split
  · rename_i heq
    rw [heq]
  · rename_i heq
    simp only [heq]

/-- A value of one word. -/
theorem readValue_word {v : Str} {close : Item} (hclose : close = .semicolon ∨ close = .rightBrace)
    (h : Spells (.ident v :: close :: items) (input.drop pos)) :
    ∃ stop, readValue numbers input none pos = (some v, stop) ∧
      Spells items (input.drop stop) := by
  obtain ⟨word, pos₁, hword, htype, hvalue, h₁⟩ := next_item numbers h
  obtain ⟨last, pos₂, hlast, hlastType, -, h₂⟩ := next_item numbers h₁
  refine ⟨pos₂, ?_, h₂⟩
  have hends : last.type = .semicolon ∨ last.type = .rightBrace := by
    rw [hlastType]
    exact hclose.imp (fun heq => by rw [heq]; rfl) (fun heq => by rw [heq]; rfl)
  have hgoes : ¬ (word.type = .semicolon ∨ word.type = .rightBrace) := by
    rw [htype]
    exact fun h => by cases h with | inl h => cases h | inr h => cases h
  rw [readValue_eq, hword]
  simp only [if_neg hgoes]
  rw [readValue_eq, hlast]
  simp only [if_pos hends, joinValue, hvalue]
  rfl

/-- The rule with one more declaration. -/
def addPair (rule : CssRule) (d : Str × Str) : CssRule :=
  cssRuleAddDeclaration rule ⟨d.1, .string d.2⟩

/-- A declaration, from its property on. -/
theorem parseDeclaration_pair {property : CssToken} {p v : Str} {close : Item}
    (hclose : close = .semicolon ∨ close = .rightBrace) (hproperty : property.value = some p)
    (h : Spells (.colon :: .ident v :: close :: items) (input.drop pos)) :
    ∃ stop, cssParseDeclaration numbers input rule property pos = (addPair rule (p, v), stop) ∧
      Spells items (input.drop stop) := by
  obtain ⟨colon, pos₁, hcolon, htype, -, h₁⟩ := next_item numbers h
  obtain ⟨stop, hread, h₂⟩ := readValue_word numbers hclose h₁
  refine ⟨stop, ?_, h₂⟩
  rw [cssParseDeclaration, hcolon]
  simp only [htype, hread, hproperty]
  rfl

/-- What the loop does with a property and what follows it up to the end of the declaration. -/
theorem readDeclarations_pair {p v : Str} {close : Item}
    (hclose : close = .semicolon ∨ close = .rightBrace)
    (h : Spells (.ident p :: .colon :: .ident v :: close :: items) (input.drop pos)) :
    ∃ stop, readDeclarations numbers input rule pos =
        readDeclarations numbers input (addPair rule (p, v)) stop ∧
      Spells items (input.drop stop) := by
  obtain ⟨property, pos₁, hproperty, htype, hvalue, h₁⟩ := next_item numbers h
  obtain ⟨stop, hparse, h₂⟩ := parseDeclaration_pair numbers rule hclose
    hvalue h₁
  refine ⟨stop, ?_, h₂⟩
  rw [readDeclarations_eq, hproperty]
  simp only [htype, hparse]
  rfl

/-- A closing brace ends the block. -/
theorem readDeclarations_close (h : Spells (.rightBrace :: items) (input.drop pos)) :
    ∃ stop, readDeclarations numbers input rule pos = (rule, stop) ∧
      Spells items (input.drop stop) := by
  obtain ⟨close, stop, hclose, htype, -, h₁⟩ := next_item numbers h
  refine ⟨stop, ?_, h₁⟩
  rw [readDeclarations_eq, hclose]
  simp only [htype]
  rfl

/-- At the end of the text the loop ends. -/
theorem readDeclarations_end (h : Spells [] (input.drop pos)) :
    ∃ stop, readDeclarations numbers input rule pos = (rule, stop) ∧
      Spells [] (input.drop stop) := by
  obtain ⟨stop, hnext, h₁⟩ := next_end numbers h
  exact ⟨stop, by rw [readDeclarations_eq, hnext], h₁⟩

/-- The brace that ends a block with these declarations is not taken by the last of them. -/
def SourceRule.Closed (r : SourceRule) : Prop := r.semicolon = true ∨ r.declarations = []

instance (r : SourceRule) : Decidable r.Closed := inferInstanceAs (Decidable (_ ∨ _))

/-- **The declarations of a block.** The loop adds them to the rule, and it ends with the block
if this is closed, else it goes on behind the block. -/
theorem readDeclarations_block (semicolon : Bool) (ds : List (Str × Str))
    (h : Spells (declarationItems semicolon ds ++ .rightBrace :: items) (input.drop pos)) :
    ∃ stop, Spells items (input.drop stop) ∧ readDeclarations numbers input rule pos =
      if semicolon = true ∨ ds = [] then (ds.foldl addPair rule, stop)
      else readDeclarations numbers input (ds.foldl addPair rule) stop := by
  induction ds generalizing rule pos with
  | nil =>
    obtain ⟨stop, hread, h₁⟩ := readDeclarations_close numbers rule h
    exact ⟨stop, h₁, by rw [hread, if_pos (.inr rfl)]; rfl⟩
  | cons d ds ih =>
    obtain ⟨p, v⟩ := d
    cases ds with
    | nil =>
      cases semicolon with
      | true =>
        obtain ⟨pos₁, hread₁, h₁⟩ := readDeclarations_pair numbers rule
          (.inl rfl) h
        obtain ⟨stop, hread₂, h₂⟩ := readDeclarations_close numbers
          (addPair rule (p, v)) h₁
        exact ⟨stop, h₂, by rw [hread₁, hread₂, if_pos (.inl rfl)]; rfl⟩
      | false =>
        obtain ⟨stop, hread, h₁⟩ := readDeclarations_pair numbers rule
          (.inr rfl) h
        refine ⟨stop, h₁, ?_⟩
        rw [hread, if_neg (by simp)]
        rfl
    | cons d' ds =>
      obtain ⟨pos₁, hread₁, h₁⟩ := readDeclarations_pair numbers rule
        (.inl rfl) h
      obtain ⟨stop, h₂, hread₂⟩ := ih (addPair rule (p, v)) h₁
      refine ⟨stop, h₂, ?_⟩
      rw [hread₁, hread₂]
      simp only [List.cons_ne_nil, List.foldl_cons]

/-- In a block that goes on, the selector of the next rule is passed with its brace. -/
theorem readDeclarations_selector {selector : Str}
    (h : Spells (.ident selector :: .leftBrace :: items) (input.drop pos)) :
    ∃ stop, readDeclarations numbers input rule pos = readDeclarations numbers input rule stop ∧
      Spells items (input.drop stop) := by
  obtain ⟨property, pos₁, hproperty, htype, -, h₁⟩ := next_item numbers h
  obtain ⟨brace, stop, hbrace, hbraceType, -, h₂⟩ := next_item numbers h₁
  have hparse : cssParseDeclaration numbers input rule property pos₁ = (rule, stop) := by
    rw [cssParseDeclaration, hbrace]
    simp only [hbraceType]
    rfl
  refine ⟨stop, ?_, h₂⟩
  rw [readDeclarations_eq, hproperty]
  simp only [htype, hparse]
  rfl

/-- The text of some rules. -/
def allItems (rules : List SourceRule) : List Item := rules.flatMap SourceRule.items

theorem allItems_cons (r : SourceRule) (rules : List SourceRule) : allItems (r :: rules) =
    .ident r.selector :: .leftBrace ::
      (declarationItems r.semicolon r.declarations ++ .rightBrace :: allItems rules) := by
  simp [allItems, SourceRule.items, SourceRule.block]

/-- A block that goes on takes one rule at least, if there is one. -/
theorem readDeclarations_absorb (rules : List SourceRule)
    (h : Spells (allItems rules) (input.drop pos)) : ∃ rest stop rule',
      readDeclarations numbers input rule pos = (rule', stop) ∧
      Spells (allItems rest) (input.drop stop) ∧ rest.length ≤ rules.length - 1 ∧
      (rules = [] → rule' = rule) := by
  induction rules generalizing rule pos with
  | nil =>
    obtain ⟨stop, hread, h₁⟩ := readDeclarations_end numbers rule h
    exact ⟨[], stop, rule, hread, h₁, le_rfl, fun _ => rfl⟩
  | cons r rules ih =>
    rw [allItems_cons] at h
    obtain ⟨pos₁, hread₁, h₁⟩ := readDeclarations_selector numbers rule h
    obtain ⟨pos₂, h₂, hread₂⟩ := readDeclarations_block numbers rule
      r.semicolon r.declarations h₁
    split_ifs at hread₂ with hclosed
    · exact ⟨rules, pos₂, _, hread₁.trans hread₂, h₂, le_rfl, fun hnil => by cases hnil⟩
    · obtain ⟨rest, stop, rule', hread₃, h₃, hlength, -⟩ :=
        ih (r.declarations.foldl addPair rule) h₂
      refine ⟨rest, stop, rule', hread₁.trans (hread₂.trans hread₃), h₃, ?_,
        fun hnil => by cases hnil⟩
      rw [List.length_cons]
      omega

/-- The rule of a text. -/
def SourceRule.made (r : SourceRule) : CssRule :=
  r.declarations.foldl addPair ⟨[⟨.element, some r.selector⟩], [], 0⟩

/-- **One rule.** It gets its own declarations if its block is closed, or nothing follows; else
the rules that follow are not all read as rules. -/
theorem readRules_cons (r : SourceRule) (rules : List SourceRule)
    (h : Spells (allItems (r :: rules)) (input.drop pos)) : ∃ rest stop rule',
      readRules numbers input sheet pos =
        readRules numbers input (cssStylesheetAddRule sheet rule') stop ∧
      Spells (allItems rest) (input.drop stop) ∧
      (r.Closed ∨ rules = [] → rest = rules ∧ rule' = r.made) ∧
      (¬ r.Closed → rest.length ≤ rules.length - 1) := by
  rw [allItems_cons] at h
  obtain ⟨first, pos₁, hfirst, htype, hvalue, h₁⟩ := next_item numbers h
  obtain ⟨brace, pos₂, hbrace, hbraceType, -, h₂⟩ := next_item numbers h₁
  obtain ⟨pos₃, h₃, hblock⟩ := readDeclarations_block numbers
    ⟨[⟨.element, some r.selector⟩], [], 0⟩ r.semicolon r.declarations h₂
  have hskip : skipTo numbers input (fun type => type == .leftBrace) pos₁ =
      (some brace, pos₂) := by
    rw [skipTo_eq, hbrace]
    simp only [hbraceType]
    rfl
  have hread : readRules numbers input sheet pos = readRules numbers input
      (cssStylesheetAddRule sheet (readDeclarations numbers input
        ⟨[⟨.element, some r.selector⟩], [], 0⟩ pos₂).1)
      (readDeclarations numbers input ⟨[⟨.element, some r.selector⟩], [], 0⟩ pos₂).2 := by
    have hparse : cssParseRule numbers input sheet first pos₁ =
        cssParseStyleRule numbers input sheet first pos₁ := by
      rw [cssParseRule, htype]
      rfl
    rw [readRules_eq, hfirst]
    simp only [hparse, cssParseStyleRule, hskip, hvalue]
    rfl
  split_ifs at hblock with hclosed
  · refine ⟨rules, pos₃, r.made, ?_, h₃, fun _ => ⟨rfl, rfl⟩, fun hno => absurd hclosed hno⟩
    rw [hread, hblock]
    rfl
  · obtain ⟨rest, stop, rule', habsorb, h₄, hlength, hlast⟩ :=
      readDeclarations_absorb numbers r.made rules h₃
    refine ⟨rest, stop, rule', ?_, h₄, ?_, fun _ => hlength⟩
    · rw [hread, hblock]
      exact congrArg₂ (readRules numbers input) (congrArg _ (congrArg Prod.fst habsorb))
        (congrArg Prod.snd habsorb)
    · rintro (hc | rfl)
      · exact absurd hc hclosed
      · exact ⟨List.length_eq_zero_iff.mp (Nat.le_zero.mp hlength), hlast rfl⟩

/-- At the end of the text no rule is added. -/
theorem readRules_end (h : Spells [] (input.drop pos)) :
    readRules numbers input sheet pos = sheet := by
  obtain ⟨stop, hnext, -⟩ := next_end numbers h
  rw [readRules_eq, hnext]

theorem addRule_length (rule' : CssRule) :
    (cssStylesheetAddRule sheet rule').rules.length = sheet.rules.length + 1 := rfl

/-- No more rules are made than there are. -/
theorem readRules_length (rules : List SourceRule) (h : Spells (allItems rules) (input.drop pos)) :
    (readRules numbers input sheet pos).rules.length ≤ sheet.rules.length + rules.length := by
  induction hn : rules.length using Nat.strong_induction_on generalizing rules sheet pos with
  | _ n ih =>
    subst hn
    cases rules with
    | nil =>
      rw [readRules_end numbers sheet h]
      exact Nat.le_add_right ..
    | cons r rules =>
      obtain ⟨rest, stop, rule', hread, h₁, hclosed, hopen⟩ :=
        readRules_cons numbers sheet r rules h
      have hlength : rest.length ≤ rules.length := by
        by_cases hr : r.Closed
        · rw [(hclosed (.inl hr)).1]
        · exact (hopen hr).trans (Nat.sub_le ..)
      have hrest := ih rest.length (by rw [List.length_cons]; omega)
        (cssStylesheetAddRule sheet rule') rest h₁ rfl
      rw [addRule_length] at hrest
      rw [hread, List.length_cons]
      omega

/-- Every block but the last one is closed. -/
def Separate (rules : List SourceRule) : Prop := ∀ r ∈ rules.dropLast, r.Closed

theorem separate_cons (r : SourceRule) (rules : List SourceRule) :
    Separate (r :: rules) ↔ (r.Closed ∨ rules = []) ∧ Separate rules := by
  cases rules with
  | nil => simp [Separate]
  | cons r' rules => simp [Separate]

/-- **Separate rules** are all made, each with its own declarations. -/
theorem readRules_separate (rules : List SourceRule) (hsep : Separate rules)
    (h : Spells (allItems rules) (input.drop pos)) :
    (readRules numbers input sheet pos).rules =
      (rules.map SourceRule.made).reverse ++ sheet.rules := by
  induction rules generalizing sheet pos with
  | nil =>
    rw [readRules_end numbers sheet h]
    rfl
  | cons r rules ih =>
    obtain ⟨hr, hrules⟩ := (separate_cons r rules).mp hsep
    obtain ⟨rest, stop, rule', hread, h₁, hclosed, -⟩ :=
      readRules_cons numbers sheet r rules h
    obtain ⟨rfl, rfl⟩ := hclosed hr
    rw [hread, ih (cssStylesheetAddRule sheet r.made) hrules h₁]
    simp [cssStylesheetAddRule]

/-- **Other rules** are not all made. -/
theorem readRules_lt (rules : List SourceRule) (hsep : ¬ Separate rules)
    (h : Spells (allItems rules) (input.drop pos)) :
    (readRules numbers input sheet pos).rules.length < sheet.rules.length + rules.length := by
  induction rules generalizing sheet pos with
  | nil => exact absurd (fun r hr => absurd hr List.not_mem_nil) hsep
  | cons r rules ih =>
    obtain ⟨rest, stop, rule', hread, h₁, hclosed, hopen⟩ :=
      readRules_cons numbers sheet r rules h
    rw [separate_cons, not_and] at hsep
    rw [hread, List.length_cons]
    by_cases hr : r.Closed
    · obtain ⟨rfl, -⟩ := hclosed (.inl hr)
      have hrest := ih (cssStylesheetAddRule sheet rule') (hsep (.inl hr)) h₁
      rw [addRule_length] at hrest
      omega
    · have hne : rules ≠ [] := by
        rintro rfl
        exact hsep (.inr rfl) fun r hr => absurd hr List.not_mem_nil
      have hpos := List.length_pos_iff.mpr hne
      have hshort := hopen hr
      have hrest := readRules_length numbers
        (cssStylesheetAddRule sheet rule') rest h₁
      rw [addRule_length] at hrest
      omega

end

/-! ### The stylesheet -/

/-- A rule of the stylesheet is the one of the text. -/
structure SourceRule.IsRule (r : SourceRule) (rule : CssRule) : Prop where
  /-- It has the selector. -/
  selectors : rule.selectors = [⟨.element, some r.selector⟩]
  /-- It has the declarations. -/
  declarations : rule.declarations.Perm
    (r.declarations.map fun d => (⟨d.1, .string d.2⟩ : CssDeclaration))

/-- The stylesheet has one rule for each one of the text, in some order. -/
def SameRules (rules : List SourceRule) (sheet : CssStylesheet) : Prop :=
  ∃ made, sheet.rules.Perm made ∧ List.Forall₂ SourceRule.IsRule rules made

theorem made_isRule (r : SourceRule) : r.IsRule r.made := by
  have hall : ∀ (ds : List (Str × Str)) (rule : CssRule),
      (ds.foldl addPair rule).selectors = rule.selectors ∧
      (ds.foldl addPair rule).declarations.Perm
        (ds.map (fun d => (⟨d.1, .string d.2⟩ : CssDeclaration)) ++ rule.declarations) := by
    intro ds
    induction ds with
    | nil => exact fun rule => ⟨rfl, .refl _⟩
    | cons d ds ih =>
      intro rule
      obtain ⟨hselectors, hdeclarations⟩ := ih (addPair rule d)
      exact ⟨hselectors, hdeclarations.trans List.perm_middle⟩
  obtain ⟨hselectors, hdeclarations⟩ := hall r.declarations ⟨[⟨.element, some r.selector⟩], [], 0⟩
  rw [List.append_nil] at hdeclarations
  exact ⟨hselectors, hdeclarations⟩

/-- The characters of an item are not the final zero of a string. -/
theorem Item.text_nonzero {item : Item} (h : item.Ok) : ∀ c ∈ item.text, c ≠ 0 := by
  have hident : isIdentChar 0 = false := by decide
  cases item with
  | ident name =>
    obtain ⟨b, t, rfl, halpha, hchars⟩ := h
    intro c hc hzero
    subst hzero
    rcases List.mem_cons.mp hc with rfl | hmem
    · cases halpha
    · have hchar := hchars 0 hmem
      rw [hident] at hchar
      cases hchar
  | colon | semicolon | leftBrace | rightBrace => simp [Item.text, chr]

/-- A text is a string: there is no zero in it. -/
theorem Spells.nonzero {items : List Item} {s : Str} (h : Spells items s) :
    s.takeWhile (· != 0) = s := by
  have hspace : ∀ {gap : Str}, (∀ c ∈ gap, isspace c = true) → ∀ c ∈ gap, c ≠ 0 := by
    intro gap hgap c hc hzero
    have hc := hgap c hc
    rw [hzero] at hc
    cases hc
  have hall : ∀ c ∈ s, c ≠ 0 := by
    induction h with
    | nil hgap => exact hspace hgap
    | cons hgap hitem hrest hend ih =>
      intro c hc
      rcases List.mem_append.mp hc with hmem | hmem
      · exact hspace hgap c hmem
      · rcases List.mem_append.mp hmem with hmem | hmem
        · exact Item.text_nonzero hitem c hmem
        · exact ih c hmem
  have htake := takeWhile_to (f := (· != 0)) (r := []) (a := s) (fun c hc => by simp [hall c hc])
    (fun c hc => by cases hc)
  rwa [List.append_nil] at htake

/-- **The rules of a stylesheet.** For every text of simple rules, the stylesheet has one rule
for each of them, with its selector and its declarations, exactly if every block but the last
one has no declaration, or a semicolon after the last one. -/
theorem stylesheet_rules (numbers : NumberReader) {rules : List SourceRule} {text : Str}
    (h : Spells (rules.flatMap SourceRule.items) text) :
    SameRules rules (cssParserParse numbers text) ↔
      ∀ r ∈ rules.dropLast, r.semicolon = true ∨ r.declarations = [] := by
  rw [cssParserParse, h.nonzero]
  have htext : Spells (allItems rules) (text.drop 0) := h
  constructor
  · rintro ⟨made, hperm, hall⟩
    by_contra hsep
    have hlt := readRules_lt numbers ⟨[]⟩ rules hsep htext
    have hlength := hall.length_eq
    rw [hperm.length_eq, ← hlength] at hlt
    simp at hlt
  · intro hsep
    rw [SameRules, readRules_separate numbers ⟨[]⟩ rules hsep htext]
    refine ⟨rules.map SourceRule.made, by simp [List.reverse_perm], ?_⟩
    rw [List.forall₂_map_right_iff]
    exact List.forall₂_same.mpr fun r _ => made_isRule r

/-! ### Two rules -/

/-- Items, with a space after each. -/
def writeItems : List Item → Str
  | [] => []
  | item :: items => item.text ++ chr ' ' :: writeItems items

/-- One more space in front. -/
theorem Spells.space {items : List Item} {s : Str} {c : UInt8} (h : Spells items s)
    (hc : isspace c = true) : Spells items (c :: s) := by
  cases h with
  | nil hgap => exact .nil (List.forall_mem_cons.mpr ⟨hc, hgap⟩)
  | cons hgap hitem hrest hend =>
    exact .cons (List.forall_mem_cons.mpr ⟨hc, hgap⟩) hitem hrest hend

theorem spells_write (items : List Item) (h : ∀ item ∈ items, item.Ok) :
    Spells items (writeItems items) := by
  induction items with
  | nil => exact .nil fun c hc => absurd hc List.not_mem_nil
  | cons item items ih =>
    have hrest : Spells items (writeItems items) :=
      ih fun item hitem => h item (List.mem_cons_of_mem _ hitem)
    apply @Spells.cons [] _ _ _ (fun c hc => absurd hc List.not_mem_nil)
      (h item List.mem_cons_self) (hrest.space (c := chr ' ') (by decide))
    rintro name - c hc
    cases hc
    decide

/-- A `css_parse_number_or_ident` that takes one character. -/
def oneCharacter : NumberReader where
  read _ pos := (⟨.number, none, pos⟩, pos + 1)
  forward _ _ := Nat.lt_succ_self _
  within _ _ h := h

/-- The rules `a { x : y }` and `b { z : w }`, the first one with a semicolon or without. -/
def twoRules (semicolon : Bool) : List SourceRule :=
  [⟨str "a", [(str "x", str "y")], semicolon⟩, ⟨str "b", [(str "z", str "w")], false⟩]

theorem twoRules_ok (semicolon : Bool) :
    ∀ item ∈ (twoRules semicolon).flatMap SourceRule.items, item.Ok := by
  have hletter : ∀ c, isalpha c = true → (Item.ident [c]).Ok :=
    fun c hc => ⟨c, [], rfl, hc, fun b hb => absurd hb List.not_mem_nil⟩
  intro item hitem
  cases item with
  | ident name =>
    have hname : name = str "a" ∨ name = str "x" ∨ name = str "y" ∨ name = str "b" ∨
        name = str "z" ∨ name = str "w" := by
      cases semicolon <;>
        simpa [twoRules, SourceRule.items, SourceRule.block, declarationItems] using hitem
    rcases hname with rfl | rfl | rfl | rfl | rfl | rfl <;> exact hletter _ (by decide)
  | colon | semicolon | leftBrace | rightBrace => trivial

/-- The rules `a { x : y ; }` and `b { z : w }` become two rules. -/
theorem stylesheet_rules_two :
    SameRules (twoRules true) (cssParserParse oneCharacter
      (writeItems ((twoRules true).flatMap SourceRule.items))) :=
  (stylesheet_rules oneCharacter (spells_write _ (twoRules_ok true))).mpr (by decide)

/-- The rules `a { x : y }` and `b { z : w }` do not: the second one is read as a part of the
first. -/
theorem brace_taken :
    Spells ((twoRules false).flatMap SourceRule.items)
      (writeItems ((twoRules false).flatMap SourceRule.items)) ∧
    ¬ SameRules (twoRules false) (cssParserParse oneCharacter
      (writeItems ((twoRules false).flatMap SourceRule.items))) := by
  refine ⟨spells_write _ (twoRules_ok false), ?_⟩
  rintro ⟨made, hperm, hall⟩
  have hlength := hperm.length_eq.trans hall.length_eq.symm
  revert hlength
  decide +kernel

end PrismaticOS.Css
