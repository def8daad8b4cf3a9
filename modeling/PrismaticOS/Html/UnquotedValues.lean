import PrismaticOS.Html.Markup

/-!
# Values without quotes

`html_parse_attribute_value` reads a value without quotes up to a space, a `>` or a `/`. So a `/`
in the value ends it, and `html_parse_tag` takes the `/` for that of a self-closing tag.

## What is proved

* `bareTag_token` — what is read of a tag with such a value.
* `unquoted_value_iff` — the value is read as it is written exactly if it has no `/`.
-/

namespace PrismaticOS.Html

open PrismaticOS.Libc

/-- A value that may stand without quotes. -/
structure BareValue (v : Str) : Prop where
  /-- It is not empty. -/
  nonempty : v ≠ []
  /-- It has no spaces, and none of these characters. -/
  chars : ∀ c ∈ v, isspace c = false ∧
    c ∉ [chr '"', chr '\'', chr '=', chr '<', chr '>', chr '`']
  /-- It does not end in a `/`. -/
  last : v.getLast? ≠ some (chr '/')

/-- `<name attr=v>`. -/
def bareTag (name attr v : Str) : Str :=
  chr '<' :: (name ++ chr ' ' :: (attr ++ chr '=' :: (v ++ [chr '>'])))

variable {name attr v u r s tail rest : Str} {d : UInt8}

theorem BareValue.isBare (h : BareValue v) : IsBare v := by
  refine ⟨?_, fun c hc => ⟨(h.chars c hc).1, ?_⟩, h.last⟩
  · obtain ⟨c, t, rfl⟩ := List.exists_cons_of_ne_nil h.nonempty
    obtain ⟨-, hmarks⟩ := h.chars c List.mem_cons_self
    refine ⟨c, t, rfl, ?_⟩
    rintro (rfl | rfl)
    · exact hmarks (by decide)
    · exact hmarks (by decide)
  · rintro rfl
    exact (h.chars _ hc).2 (by decide)

/-- The attribute is read, and ends before a `>` or a `/`. -/
theorem bareAttribute_parsed (hattr : IsAttrName attr)
    (hvalue : htmlParseAttributeValue s = (some u, d :: r)) (hd : d = chr '>' ∨ d = chr '/') :
    htmlParseAttributes (chr ' ' :: (attr ++ chr '=' :: s)) = ([(attr, some u)], d :: r) := by
  have hskip : (chr ' ' :: (attr ++ chr '=' :: s)).dropWhile isspace = attr ++ chr '=' :: s := by
    obtain ⟨b, t, hb, hchar⟩ := hattr.head (chr '=' :: s)
    rw [List.dropWhile_cons_of_pos (by decide), hb,
      List.dropWhile_cons_of_neg (by simp [isAttrChar_space hchar])]
  obtain ⟨htake, hpassed⟩ := hattr.value_passed gap_nil gap_nil s
  rw [List.nil_append, List.nil_append] at htake hpassed
  rw [hvalue] at hpassed
  have hspace : isspace d = false := by
    rcases hd with rfl | rfl <;> decide
  have hend : htmlParseAttributes (d :: r) = ([], d :: r) :=
    attributes_end (List.dropWhile_cons_of_neg (by simp [hspace])) hd
  rw [attributes_cons hskip (by rw [htake]; exact hattr.nonempty), htake, hpassed]
  simp only [hend]

/-- **The tag** up to the character that ends the value. -/
theorem bareTag_token (hname : IsTagName name)
    (hattrs : htmlParseAttributes (chr ' ' :: tail) = ([(attr, some u)], r)) :
    htmlParserNextToken (chr '<' :: (name ++ chr ' ' :: tail)) =
      let selfClosing := accept (chr '/') r
      let close := accept (chr '>') selfClosing.2
      if close.1 then (some (.startTag name [(attr, some u)] selfClosing.1), close.2)
      else (none, close.2) := by
  have hnameEnd : ∀ b, (chr ' ' :: tail).head? = some b → isNameChar b = false := by
    intro b hb
    cases hb
    decide
  have hbegun := tag_begun (.inl rfl) hname hnameEnd
  simp only [hattrs, if_true] at hbegun
  exact hbegun

/-- **Values without quotes.** The tag is read with its attribute, whatever stands behind it,
exactly if the value has no `/`. -/
theorem unquoted_value_iff (hname : IsTagName name) (hattr : IsAttrName attr) (hv : BareValue v)
    (rest : Str) :
    (htmlParserNextToken (bareTag name attr v ++ rest)).1 =
      some (.startTag name [(attr, some v)] false) ↔ chr '/' ∉ v := by
  have hwritten : bareTag name attr v ++ rest =
      chr '<' :: (name ++ chr ' ' :: (attr ++ chr '=' :: (v ++ chr '>' :: rest))) := by
    simp [bareTag]
  rw [hwritten]
  constructor
  · intro htoken hmem
    obtain ⟨u, b, w, hb, hstops⟩ := hv.isBare.stops hmem
    have hattrs := bareAttribute_parsed hattr (hstops (chr '>' :: rest)) (.inr rfl)
    rw [bareTag_token hname hattrs] at htoken
    simp only [slash_open hb] at htoken
    cases htoken
  · intro hslash
    have hend : ∀ b, (chr '>' :: rest).head? = some b → isValueChar b = false := by
      intro b hb
      cases hb
      decide
    have hattrs := bareAttribute_parsed hattr (hv.isBare.parsed hslash hend) (.inl rfl)
    rw [bareTag_token hname hattrs]
    rfl

theorem tagName_a : IsTagName (str "a") := ⟨by decide, List.all_eq_true.mp (by decide)⟩

theorem attrName_href : IsAttrName (str "href") := ⟨by decide, List.all_eq_true.mp (by decide)⟩

/-- `<a href=b:c>`. -/
theorem unquoted_value_link :
    (htmlParserNextToken (bareTag (str "a") (str "href") (str "b:c") ++ str "d")).1 =
      some (.startTag (str "a") [(str "href", some (str "b:c"))] false) :=
  (unquoted_value_iff tagName_a attrName_href ⟨by decide, by simp [str, isspace, chr], by decide⟩
    (str "d")).mpr (by decide)

/-- `<a href=b/c>` is no tag. -/
theorem unquoted_value_slash : ¬ ∀ name attr v : Str, IsTagName name → IsAttrName attr →
    BareValue v → (htmlParserNextToken (bareTag name attr v)).1 =
      some (.startTag name [(attr, some v)] false) := by
  intro h
  have htoken := h (str "a") (str "href") (str "b/c") tagName_a attrName_href
    ⟨by decide, by simp [str, isspace, chr], by decide⟩
  revert htoken
  decide +kernel

end PrismaticOS.Html
