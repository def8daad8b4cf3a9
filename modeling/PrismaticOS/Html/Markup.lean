import Mathlib.Data.List.DropRight
import PrismaticOS.Html.TagParts
import PrismaticOS.Html.Truncation

/-!
# Well-formed markup

Tags, comments and `DOCTYPE`s as one would write them, and what `html_parser_next_token` makes of
them.

## The model

A value without quotes may have a `/`, but not at its end, where it would be that of a self-closing
tag. Which of these values are meant is a parameter, so that the markup without any such `/` can be
told from the rest.

## What is proved

* `attributes_markup` — the attributes are passed.
* `markup_token` — where no value without quotes has a `/`, one token is read.
* `markup_read_or_not` — otherwise none is.
-/

namespace PrismaticOS.Html

open PrismaticOS.Libc

/-- A value without quotes: it has no space and no `>`, and no `/` at its end. -/
structure IsBare (v : Str) : Prop where
  /-- It begins with something else than a quote. -/
  head : ∃ c r, v = c :: r ∧ ¬ IsQuote c
  /-- Its characters. -/
  chars : ∀ c ∈ v, isspace c = false ∧ c ≠ chr '>'
  /-- Its end. -/
  last : v.getLast? ≠ some (chr '/')

/-- There is no `/` in a value. -/
def NoSlash (v : Str) : Prop := chr '/' ∉ v

section
variable (Bare : Str → Prop)

/-- The value of an attribute. -/
inductive IsValue : Str → Prop where
  /-- It may stand in quotes. -/
  | quoted {quote : UInt8} {v : Str} (hquote : IsQuote quote) (hv : quote ∉ v) :
    IsValue (quote :: (v ++ [quote]))
  /-- It may stand there as it is. -/
  | bare {v : Str} (hv : IsBare v) (hbare : Bare v) : IsValue v

/-- An attribute. -/
inductive IsAttribute : Str → Prop where
  /-- It may have no value. -/
  | name {name : Str} (hname : IsAttrName name) : IsAttribute name
  /-- It may have one. -/
  | value {name before after v : Str} (hname : IsAttrName name) (hbefore : Gap before)
    (hafter : Gap after) (hv : IsValue Bare v) :
    IsAttribute (name ++ (before ++ chr '=' :: (after ++ v)))

/-- Attributes, with spaces before each. -/
inductive IsAttributes : Str → Prop where
  /-- There may be none. -/
  | nil : IsAttributes []
  /-- One more. -/
  | cons {gap a rest : Str} (hgap : Gap gap) (hne : gap ≠ []) (ha : IsAttribute Bare a)
    (hrest : IsAttributes rest) : IsAttributes (gap ++ (a ++ rest))

/-- A tag: a start tag, or an end tag with a `/` before its name. -/
inductive IsTag : Str → Prop where
  /-- It is written in this way. -/
  | mk {first name attrs gap last : Str} (hfirst : MaySlash first) (hname : IsTagName name)
    (hattrs : IsAttributes Bare attrs) (hgap : Gap gap) (hlast : MaySlash last) :
    IsTag (chr '<' :: (first ++ (name ++ (attrs ++ (gap ++ (last ++ [chr '>']))))))

/-- A tag, a comment or a `DOCTYPE`. -/
inductive IsMarkup : Str → Prop where
  /-- A tag. -/
  | tag {w : Str} (h : IsTag Bare w) : IsMarkup w
  /-- A comment. -/
  | comment {data : Str} (h : ¬ str "-->" <:+: data) :
    IsMarkup (str "<!--" ++ (data ++ str "-->"))
  /-- A `DOCTYPE`. -/
  | doctype {word data : Str} (hword : sameCase word (str "!DOCTYPE") = true)
    (hdata : chr '>' ∉ data) : IsMarkup (chr '<' :: (word ++ (data ++ [chr '>'])))

end

variable {Bare : Str → Prop} {first name gap before after v u s r a w tail rest start : Str}
  {c quote : UInt8}

/-! ### Values -/

theorem IsBare.valueChar (h : IsBare v) (hc : c ∈ v) (hslash : c ≠ chr '/') :
    isValueChar c = true := by
  obtain ⟨hspace, hgt⟩ := h.chars c hc
  simp [isValueChar, hspace, hgt, hslash]

/-- A value without a `/` is read as it is. -/
theorem IsBare.parsed (h : IsBare v) (hslash : chr '/' ∉ v)
    (htail : ∀ b, tail.head? = some b → isValueChar b = false) :
    htmlParseAttributeValue (v ++ tail) = (some v, tail) := by
  have hchars : ∀ b ∈ v, isValueChar b = true := by
    intro b hb
    apply h.valueChar hb
    rintro rfl
    exact hslash hb
  obtain ⟨c, r, rfl, hc⟩ := h.head
  exact bareValue_parsed rfl (h.chars c List.mem_cons_self).1 hc hchars htail

/-- A value with a `/` ends there, and something else than a `>` follows. -/
theorem IsBare.stops (h : IsBare v) (hslash : chr '/' ∈ v) : ∃ u b w, b ≠ chr '>' ∧
    ∀ tail, htmlParseAttributeValue (v ++ tail) = (some u, chr '/' :: b :: (w ++ tail)) := by
  obtain ⟨u, w, huw, hu⟩ := List.eq_append_cons_of_mem hslash
  obtain ⟨c, r, hcr, hc⟩ := h.head
  have hspace := (h.chars c (hcr ▸ List.mem_cons_self)).1
  have hchars : ∀ b ∈ u, isValueChar b = true := by
    intro b hb
    apply h.valueChar (huw ▸ List.mem_append_left _ hb)
    rintro rfl
    exact hu hb
  cases w with
  | nil => exact absurd (by simp [huw]) h.last
  | cons b w =>
    refine ⟨u, b, w, (h.chars b (by simp [huw])).2, fun tail => ?_⟩
    have hhead : u ++ (chr '/' :: b :: (w ++ tail)) = c :: (r ++ tail) := by
      have happend := congrArg (· ++ tail) (huw.symm.trans hcr)
      simpa using happend
    have hstop : ∀ d, (chr '/' :: b :: (w ++ tail)).head? = some d → isValueChar d = false := by
      intro d hd
      cases hd
      decide
    have hwritten : v ++ tail = u ++ (chr '/' :: b :: (w ++ tail)) := by simp [huw]
    rw [hwritten, bareValue_parsed hhead hspace hc hchars hstop]

/-- **A value** without such a `/` is read. -/
theorem IsValue.parsed (h : IsValue NoSlash v)
    (htail : ∀ b, tail.head? = some b → isValueChar b = false) :
    (htmlParseAttributeValue (v ++ tail)).2 = tail := by
  cases h with
  | quoted hquote hv =>
    rw [List.cons_append, List.append_assoc, List.singleton_append, quotedValue_parsed hquote hv]
  | bare hv hslash => rw [hv.parsed hslash htail]

/-- A value with such a `/` ends there. -/
theorem IsValue.slashed (h : IsValue Bare v) : IsValue NoSlash v ∨
    ∃ b, b ≠ chr '>' ∧ ∀ tail, ∃ r,
      (htmlParseAttributeValue (v ++ tail)).2 = chr '/' :: b :: r := by
  cases h with
  | quoted hquote hv => exact .inl (.quoted hquote hv)
  | bare hv _ =>
    by_cases hslash : chr '/' ∈ v
    · obtain ⟨u, b, w, hb, hstops⟩ := hv.stops hslash
      exact .inr ⟨b, hb, fun tail => ⟨w ++ tail, congrArg Prod.snd (hstops tail)⟩⟩
    · exact .inl (.bare hv hslash)

/-! ### Attributes -/

/-- What stands after an attribute. -/
structure AfterAttr (tail : Str) : Prop where
  /-- A name or a value ends here. -/
  ends : ∃ c r, tail = c :: r ∧ isAttrChar c = false ∧ isValueChar c = false
  /-- There is no `=`. -/
  noEquals : (tail.dropWhile isspace).head? ≠ some (chr '=')

theorem afterName_none (h : (s.dropWhile isspace).head? ≠ some (chr '=')) :
    htmlParseAfterName s = (none, s.dropWhile isspace) := by
  unfold htmlParseAfterName accept
  rw [if_neg h]

/-- **An attribute** is passed, but perhaps for spaces after it. -/
theorem IsAttribute.passed (h : IsAttribute NoSlash a) (htail : AfterAttr tail) :
    (a ++ tail).takeWhile isAttrChar ≠ [] ∧
      (htmlParseAfterName ((a ++ tail).dropWhile isAttrChar)).2.dropWhile isspace =
        tail.dropWhile isspace := by
  obtain ⟨c, r, rfl, hattr, hvalue⟩ := htail.ends
  have hends : ∀ b, (c :: r).head? = some b → isAttrChar b = false := by
    intro b hb
    cases hb
    exact hattr
  have hends' : ∀ b, (c :: r).head? = some b → isValueChar b = false := by
    intro b hb
    cases hb
    exact hvalue
  cases h with
  | name hname =>
    obtain ⟨htake, hdrop⟩ := hname.passed hends
    rw [htake, hdrop, afterName_none htail.noEquals]
    exact ⟨hname.nonempty, List.dropWhile_idempotent isspace (c :: r)⟩
  | @value name before after v hname hbefore hafter hv =>
    have hwritten : name ++ (before ++ chr '=' :: (after ++ v)) ++ c :: r =
        name ++ (before ++ chr '=' :: (after ++ (v ++ c :: r))) := by simp
    obtain ⟨htake, hpassed⟩ := hname.value_passed hbefore hafter (v ++ c :: r)
    rw [hwritten, htake, hpassed, hv.parsed hends']
    exact ⟨hname.nonempty, rfl⟩

/-- An attribute whose value has such a `/` ends there. -/
theorem IsAttribute.slashed (h : IsAttribute Bare a) : IsAttribute NoSlash a ∨
    ∃ b, b ≠ chr '>' ∧ ∀ tail, (a ++ tail).takeWhile isAttrChar ≠ [] ∧
      ∃ r, (htmlParseAfterName ((a ++ tail).dropWhile isAttrChar)).2 = chr '/' :: b :: r := by
  cases h with
  | name hname => exact .inl (.name hname)
  | @value name before after v hname hbefore hafter hv =>
    obtain hv | ⟨b, hb, hslash⟩ := hv.slashed
    · exact .inl (.value hname hbefore hafter hv)
    · right
      refine ⟨b, hb, fun tail => ?_⟩
      have hwritten : name ++ (before ++ chr '=' :: (after ++ v)) ++ tail =
          name ++ (before ++ chr '=' :: (after ++ (v ++ tail))) := by simp
      obtain ⟨htake, hpassed⟩ := hname.value_passed hbefore hafter (v ++ tail)
      rw [hwritten, htake, hpassed]
      exact ⟨hname.nonempty, hslash tail⟩

theorem IsAttribute.head (h : IsAttribute Bare a) (s : Str) :
    ∃ c r, a ++ s = c :: r ∧ isAttrChar c = true := by
  cases h with
  | name hname => exact hname.head s
  | value hname hbefore hafter hv =>
    rw [List.append_assoc]
    exact hname.head _

/-- What stands after the attributes begins with a space, `>` or `/`, and then comes `>` or `/`. -/
structure AfterAttrs (tail : Str) (c : UInt8) (r : Str) : Prop where
  /-- It is there. -/
  left : tail.dropWhile isspace = c :: r
  /-- The attributes end. -/
  stop : c = chr '>' ∨ c = chr '/'

theorem AfterAttrs.afterAttr (h : AfterAttrs tail c r) : AfterAttr tail := by
  have hleft := h.left
  constructor
  · cases tail with
    | nil => cases hleft
    | cons b t =>
      by_cases hspace : isspace b = true
      · exact ⟨b, t, rfl, by simp [isAttrChar, hspace], by simp [isValueChar, hspace]⟩
      · rw [List.dropWhile_cons_of_neg hspace] at hleft
        cases hleft
        rcases h.stop with rfl | rfl
        · exact ⟨_, _, rfl, by decide, by decide⟩
        · exact ⟨_, _, rfl, by decide, by decide⟩
  · rw [hleft]
    rcases h.stop with rfl | rfl <;> simp [chr]

/-- More attributes begin with a space. -/
theorem IsAttributes.afterAttr (h : IsAttributes Bare s) (htail : AfterAttr tail) :
    AfterAttr (s ++ tail) := by
  cases h with
  | nil => exact htail
  | @cons gap a rest hgap hne ha hrest =>
    obtain ⟨c, gap, rfl⟩ := List.exists_cons_of_ne_nil hne
    obtain ⟨b, r, hb, hchar⟩ := ha.head (rest ++ tail)
    have hspace := hgap c List.mem_cons_self
    refine ⟨⟨c, _, rfl, by simp [isAttrChar, hspace], by simp [isValueChar, hspace]⟩, ?_⟩
    rw [List.append_assoc, dropWhile_gap hgap, List.append_assoc, hb,
      List.dropWhile_cons_of_neg (by simp [isAttrChar_space hchar])]
    intro heq
    cases heq
    cases hchar

/-- The spaces before an attribute are passed. -/
theorem IsAttribute.skip (h : IsAttribute Bare a) (hgap : Gap gap)
    (hstart : start.dropWhile isspace = (gap ++ (a ++ rest) ++ tail).dropWhile isspace) :
    start.dropWhile isspace = a ++ (rest ++ tail) := by
  obtain ⟨b, t, hb, hchar⟩ := h.head (rest ++ tail)
  rw [hstart, List.append_assoc, dropWhile_gap hgap, List.append_assoc, hb,
    List.dropWhile_cons_of_neg (by simp [isAttrChar_space hchar])]

/-- **The attributes** are passed. -/
theorem attributes_markup (h : IsAttributes NoSlash s) (htail : AfterAttrs tail c r)
    (hstart : start.dropWhile isspace = (s ++ tail).dropWhile isspace) :
    (htmlParseAttributes start).2 = c :: r := by
  induction h generalizing start with
  | nil =>
    rw [List.nil_append, htail.left] at hstart
    rw [attributes_end hstart htail.stop]
  | @cons gap a rest hgap hne ha hrest ih =>
    have hskip := ha.skip hgap hstart
    obtain ⟨hname, hpassed⟩ := ha.passed (hrest.afterAttr htail.afterAttr)
    rw [attributes_cons hskip hname]
    exact ih hpassed

/-- If a value has such a `/`, the attributes end there. -/
theorem IsAttributes.slashed (h : IsAttributes Bare s) (htail : AfterAttrs tail c r) :
    IsAttributes NoSlash s ∨ ∃ b, b ≠ chr '>' ∧ ∀ start : Str,
      start.dropWhile isspace = (s ++ tail).dropWhile isspace →
        ∃ t, (htmlParseAttributes start).2 = chr '/' :: b :: t := by
  induction h with
  | nil => exact .inl .nil
  | @cons gap a rest hgap hne ha hrest ih =>
    obtain hgood | ⟨b, hb, hslash⟩ := ha.slashed
    · obtain hrest' | ⟨b, hb, hslash⟩ := ih
      · exact .inl (.cons hgap hne hgood hrest')
      · right
        refine ⟨b, hb, fun start hstart => ?_⟩
        obtain ⟨hname, hpassed⟩ := hgood.passed (hrest.afterAttr htail.afterAttr)
        rw [attributes_cons (ha.skip hgap hstart) hname]
        exact hslash _ hpassed
    · right
      refine ⟨b, hb, fun start hstart => ?_⟩
      obtain ⟨hname, t, hvalue⟩ := hslash (rest ++ tail)
      have hstop : (chr '/' :: b :: t).dropWhile isspace = chr '/' :: b :: t :=
        List.dropWhile_cons_of_neg (by decide)
      rw [attributes_cons (ha.skip hgap hstart) hname]
      simp only [hvalue, attributes_end hstop (.inr rfl)]
      exact ⟨t, rfl⟩

/-! ### Tags, comments and `DOCTYPE`s -/

/-- A character that ends a value is not part of a name. -/
theorem isNameChar_false (h : isValueChar c = false) : isNameChar c = false := by
  simp only [isValueChar, isspace, Bool.and_eq_false_iff, Bool.not_eq_false', Bool.or_eq_true,
    bne_eq_false_iff_eq, beq_iff_eq, or_assoc] at h
  rcases h with rfl | rfl | rfl | rfl | rfl | rfl | rfl | rfl <;> decide

/-- What stands after the name of a tag. -/
theorem afterAttrs_last {last : Str} (hgap : Gap gap) (hlast : MaySlash last) (rest : Str) :
    ∃ c r, AfterAttrs (gap ++ (last ++ chr '>' :: rest)) c r ∧
      accept (chr '>') (accept (chr '/') (c :: r)).2 = (true, rest) := by
  rcases hlast with rfl | rfl
  · refine ⟨chr '>', rest, ⟨?_, .inl rfl⟩, rfl⟩
    rw [dropWhile_gap hgap]
    rfl
  · refine ⟨chr '/', chr '>' :: rest, ⟨?_, .inr rfl⟩, rfl⟩
    rw [dropWhile_gap hgap]
    rfl

/-- The name of a tag ends where its attributes begin. -/
theorem IsAttributes.nameEnd (h : IsAttributes Bare s) (htail : AfterAttrs tail c r) :
    ∀ b, (s ++ tail).head? = some b → isNameChar b = false := by
  obtain ⟨d, t, heq, -, hvalue⟩ := (h.afterAttr htail.afterAttr).ends
  intro b hb
  rw [heq] at hb
  cases hb
  exact isNameChar_false hvalue

/-- **A tag** is one token. -/
theorem tag_markup (h : IsTag NoSlash w) (rest : Str) :
    ∃ token, htmlParserNextToken (w ++ rest) = (some token, rest) := by
  obtain @⟨first, name, attrs, gap, last, hfirst, hname, hattrs, hgap, hlast⟩ := h
  obtain ⟨c, r, hafter, hclose⟩ := afterAttrs_last hgap hlast rest
  have hattrs' := attributes_markup hattrs hafter rfl
  have hwritten : chr '<' :: (first ++ (name ++ (attrs ++ (gap ++ (last ++ [chr '>']))))) ++ rest =
      chr '<' :: (first ++ (name ++ (attrs ++ (gap ++ (last ++ chr '>' :: rest))))) := by simp
  rw [hwritten, tag_begun hfirst hname (hattrs.nameEnd hafter)]
  simp only [hattrs', hclose]
  exact ⟨_, rfl⟩

/-- If a value has such a `/`, the tag is no token. -/
theorem IsTag.slashed (h : IsTag Bare w) :
    IsTag NoSlash w ∨ ∀ rest, (htmlParserNextToken (w ++ rest)).1 = none := by
  obtain @⟨first, name, attrs, gap, last, hfirst, hname, hattrs, hgap, hlast⟩ := h
  by_cases hgood : IsAttributes NoSlash attrs
  · exact .inl (.mk hfirst hname hgood hgap hlast)
  · right
    intro rest
    obtain ⟨c, r, hafter, -⟩ := afterAttrs_last hgap hlast rest
    obtain ⟨b, hb, hslash⟩ := (hattrs.slashed hafter).resolve_left hgood
    obtain ⟨t, ht⟩ := hslash _ rfl
    have hwritten :
        chr '<' :: (first ++ (name ++ (attrs ++ (gap ++ (last ++ [chr '>']))))) ++ rest =
          chr '<' :: (first ++ (name ++ (attrs ++ (gap ++ (last ++ chr '>' :: rest))))) := by simp
    rw [hwritten, tag_begun hfirst hname (hattrs.nameEnd hafter)]
    simp only [ht, slash_open hb]
    rfl

/-- The end of a comment is found. -/
theorem findCommentEnd_markup {data : Str} (h : ¬ str "-->" <:+: data) (rest : Str) :
    findCommentEnd (data ++ (str "-->" ++ rest)) = (data, str "-->" ++ rest) := by
  have hend : str "-->" = [chr '-', chr '-', chr '>'] := rfl
  induction data with
  | nil => rfl
  | cons a data ih =>
    have hrest : ¬ str "-->" <:+: data := fun hin => h (hin.trans (List.suffix_cons a data).isInfix)
    have hlong : ∃ b c r, data ++ (str "-->" ++ rest) = b :: c :: r ∧
        ¬ (a = chr '-' ∧ b = chr '-' ∧ c = chr '>') := by
      match data with
      | [] => exact ⟨chr '-', chr '-', chr '>' :: rest, rfl, by simp [chr]⟩
      | [b] => exact ⟨b, chr '-', chr '-' :: chr '>' :: rest, rfl, by simp [chr]⟩
      | b :: c :: r =>
        refine ⟨_, _, _, rfl, ?_⟩
        rintro ⟨rfl, rfl, rfl⟩
        exact h (List.prefix_append _ r).isInfix
    obtain ⟨b, c, r, heq, hno⟩ := hlong
    have ih := ih hrest
    rw [heq] at ih
    rw [List.cons_append, heq]
    unfold findCommentEnd
    rw [if_neg hno]
    simp only [ih]

/-- A `DOCTYPE` is not a comment. -/
theorem doctype_not_comment (h : sameCase (r.take 8) (str "!DOCTYPE") = true) :
    r.take 3 ≠ str "!--" := by
  intro hcomment
  have hword := congrArg (List.take 3) (eq_of_beq h)
  rw [← List.map_take, List.take_take, show min 3 8 = 3 from rfl, hcomment] at hword
  exact absurd hword (by decide)

/-- **A comment** is one token. -/
theorem comment_markup {data : Str} (h : ¬ str "-->" <:+: data) (rest : Str) :
    htmlParserNextToken (str "<!--" ++ (data ++ str "-->") ++ rest) =
      (some (.comment data), rest) := by
  have hwritten : str "<!--" ++ (data ++ str "-->") ++ rest =
      chr '<' :: (str "!--" ++ (data ++ (str "-->" ++ rest))) := by
    rw [List.append_assoc, List.append_assoc]
    rfl
  rw [hwritten]
  unfold htmlParserNextToken
  rw [List.dropWhile_cons_of_neg (by decide)]
  simp only [if_true]
  rw [if_pos (show (str "!--" ++ (data ++ (str "-->" ++ rest))).take 3 = str "!--" from rfl)]
  show htmlParseComment (data ++ (str "-->" ++ rest)) = _
  unfold htmlParseComment
  simp only [findCommentEnd_markup h]
  rfl

/-- **A `DOCTYPE`** is one token. -/
theorem doctype_markup {word data : Str} (hword : sameCase word (str "!DOCTYPE") = true)
    (hdata : chr '>' ∉ data) (rest : Str) :
    htmlParserNextToken (chr '<' :: (word ++ (data ++ [chr '>'])) ++ rest) =
      (some .doctype, rest) := by
  have hlength : word.length = 8 := by
    have hmap := congrArg List.length (eq_of_beq hword)
    rwa [List.length_map, List.length_map] at hmap
  have htake : (word ++ (data ++ chr '>' :: rest)).take 8 = word := by
    rw [← hlength, List.take_left]
  have hskip := doctype_skip (r := word ++ (data ++ chr '>' :: rest)) (htake.symm ▸ hword)
  have hdrop : (word ++ (data ++ chr '>' :: rest)).drop 8 = data ++ chr '>' :: rest := by
    rw [← hlength, List.drop_left]
  have hpass : ∀ b ∈ data, (b != chr '>') = true := by
    intro b hb
    rw [bne_iff_ne]
    rintro rfl
    exact hdata hb
  have hend : ((data ++ chr '>' :: rest).dropWhile (· != chr '>')).tail = rest := by
    rw [dropWhile_stop hpass (by simp)]
    rfl
  have hwritten : chr '<' :: (word ++ (data ++ [chr '>'])) ++ rest =
      chr '<' :: (word ++ (data ++ chr '>' :: rest)) := by simp
  rw [hwritten]
  unfold htmlParserNextToken
  rw [List.dropWhile_cons_of_neg (by decide)]
  simp only [if_true]
  rw [if_neg (doctype_not_comment (htake.symm ▸ hword)), htake, if_pos hword, hskip, hdrop, hend]

/-- **Markup** is one token. -/
theorem markup_token (h : IsMarkup NoSlash w) (rest : Str) :
    ∃ token, htmlParserNextToken (w ++ rest) = (some token, rest) := by
  cases h with
  | tag h => exact tag_markup h rest
  | comment h => exact ⟨_, comment_markup h rest⟩
  | doctype hword hdata => exact ⟨_, doctype_markup hword hdata rest⟩

/-- **Markup** has no such `/`, or is no token. -/
theorem markup_read_or_not (h : IsMarkup Bare w) :
    IsMarkup NoSlash w ∨ ∀ rest, (htmlParserNextToken (w ++ rest)).1 = none := by
  cases h with
  | tag h => exact h.slashed.imp_left .tag
  | comment h => exact .inl (.comment h)
  | doctype hword hdata => exact .inl (.doctype hword hdata)

end PrismaticOS.Html
