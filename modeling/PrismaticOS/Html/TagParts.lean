import PrismaticOS.Html.Tokenizer

/-!
# The parts of a tag

Names, values and spaces, and what the functions of the tokenizer make of them, whatever stands
behind.

## What is proved

* `bareValue_parsed` — a value without quotes is read up to the first character that ends it.
* `IsAttrName.value_passed` — the name of an attribute, and the `=`.
* `tag_begun` — a tag, up to its attributes.
-/

namespace PrismaticOS.Html

open PrismaticOS.Libc

/-- Spaces. -/
def Gap (s : Str) : Prop := ∀ c ∈ s, isspace c = true

/-- A quote. -/
def IsQuote (c : UInt8) : Prop := c = chr '"' ∨ c = chr '\''

/-- The name of a tag. -/
structure IsTagName (name : Str) : Prop where
  /-- It is not empty. -/
  nonempty : name ≠ []
  /-- Its characters. -/
  chars : ∀ c ∈ name, isNameChar c = true

/-- The name of an attribute. -/
structure IsAttrName (name : Str) : Prop where
  /-- It is not empty. -/
  nonempty : name ≠ []
  /-- Its characters. -/
  chars : ∀ c ∈ name, isAttrChar c = true

/-- A `/`, or nothing. -/
def MaySlash (s : Str) : Prop := s = [] ∨ s = [chr '/']

variable {first name gap before after v u s r tail : Str} {c quote : UInt8}

/-! ### Values -/

theorem gap_nil : Gap [] := fun _ hc => absurd hc List.not_mem_nil

theorem dropWhile_gap (hgap : Gap gap) (s : Str) :
    (gap ++ s).dropWhile isspace = s.dropWhile isspace := List.dropWhile_append_of_pos hgap

/-- Spaces before a value do not matter. -/
theorem attributeValue_gap (hgap : Gap gap) (s : Str) :
    htmlParseAttributeValue (gap ++ s) = htmlParseAttributeValue s := by
  unfold htmlParseAttributeValue
  rw [dropWhile_gap hgap]

/-- **A value without quotes** ends before the first character that is not part of it. -/
theorem bareValue_parsed (hhead : u ++ tail = c :: r) (hspace : isspace c = false)
    (hc : ¬ IsQuote c) (hu : ∀ b ∈ u, isValueChar b = true)
    (htail : ∀ b, tail.head? = some b → isValueChar b = false) :
    htmlParseAttributeValue (u ++ tail) = (some u, tail) := by
  have htake := takeWhile_to hu htail
  have hdrop := dropWhile_to hu htail
  unfold htmlParseAttributeValue
  rw [hhead] at htake hdrop ⊢
  rw [List.dropWhile_cons_of_neg (by simp [hspace])]
  simp only
  rw [if_neg (not_or.mpr (not_or.mp hc)), htake, hdrop]

theorem quotedValue_parsed (hquote : IsQuote quote) (hv : quote ∉ v) :
    htmlParseAttributeValue (quote :: (v ++ quote :: tail)) = (some v, tail) := by
  have hspace : isspace quote = false := by rcases hquote with rfl | rfl <;> decide
  have hall : ∀ b ∈ v, (b != quote) = true := by
    intro b hb
    rw [bne_iff_ne]
    rintro rfl
    exact hv hb
  have hstop : (quote != quote) = false := by simp
  unfold htmlParseAttributeValue
  rw [List.dropWhile_cons_of_neg (by simp [hspace])]
  simp only
  rw [if_pos (hquote.imp id id), dropWhile_stop hall hstop, takeWhile_stop hall hstop]

/-! ### Names of attributes -/

theorem afterName_equals (hgap : Gap gap) (s : Str) :
    htmlParseAfterName (gap ++ chr '=' :: s) = htmlParseAttributeValue s := by
  unfold htmlParseAfterName
  rw [dropWhile_gap hgap, List.dropWhile_cons_of_neg (by decide)]
  rfl

/-- The name of an attribute ends at the first other character. -/
theorem IsAttrName.passed (h : IsAttrName name)
    (hs : ∀ b, s.head? = some b → isAttrChar b = false) :
    (name ++ s).takeWhile isAttrChar = name ∧ (name ++ s).dropWhile isAttrChar = s :=
  ⟨takeWhile_to h.chars hs, dropWhile_to h.chars hs⟩

/-- The name of an attribute ends at a space or at the `=`, and then the value is read. -/
theorem IsAttrName.value_passed (h : IsAttrName name) (hbefore : Gap before) (hafter : Gap after)
    (s : Str) :
    (name ++ (before ++ chr '=' :: (after ++ s))).takeWhile isAttrChar = name ∧
      htmlParseAfterName ((name ++ (before ++ chr '=' :: (after ++ s))).dropWhile isAttrChar) =
        htmlParseAttributeValue s := by
  have hends : ∀ b, (before ++ chr '=' :: (after ++ s)).head? = some b → isAttrChar b = false := by
    intro b hb
    cases before with
    | nil =>
      cases hb
      decide
    | cons d before =>
      cases hb
      have hspace := hbefore _ List.mem_cons_self
      simp [isAttrChar, hspace]
  obtain ⟨htake, hdrop⟩ := h.passed hends
  rw [hdrop, afterName_equals hbefore, attributeValue_gap hafter]
  exact ⟨htake, rfl⟩

theorem IsAttrName.head (h : IsAttrName name) (s : Str) :
    ∃ c r, name ++ s = c :: r ∧ isAttrChar c = true := by
  obtain ⟨c, r, rfl⟩ := List.exists_cons_of_ne_nil h.nonempty
  exact ⟨c, r ++ s, rfl, h.chars c List.mem_cons_self⟩

theorem isAttrChar_space {c : UInt8} (h : isAttrChar c = true) : isspace c = false := by
  simp only [isAttrChar, Bool.and_eq_true, Bool.not_eq_eq_eq_not, Bool.not_true] at h
  exact h.1.1.1

/-! ### Tags -/

/-- The name of a tag ends at the first other character. -/
theorem IsTagName.passed (h : IsTagName name)
    (hs : ∀ b, s.head? = some b → isNameChar b = false) :
    htmlParseTagName (name ++ s) = (some name, s) := by
  unfold htmlParseTagName
  rw [takeWhile_to h.chars hs, dropWhile_to h.chars hs, if_neg h.nonempty]

/-- A name does not begin with one of the characters that mean something after `<`. -/
theorem IsTagName.head (h : IsTagName name) (hc : isNameChar c = false) :
    (name ++ s).head? ≠ some c := by
  obtain ⟨b, t, rfl⟩ := List.exists_cons_of_ne_nil h.nonempty
  have hb := h.chars b List.mem_cons_self
  intro heq
  cases heq
  rw [hb] at hc
  cases hc

/-- A `/` that no `>` follows does not end a tag. -/
theorem slash_open {b : UInt8} (hb : b ≠ chr '>') (t : Str) :
    accept (chr '>') (accept (chr '/') (chr '/' :: b :: t)).2 = (false, b :: t) := by
  show accept (chr '>') (b :: t) = (false, b :: t)
  exact if_neg (by simpa using hb)

/-- A tag, up to its attributes. -/
theorem tag_begun (hfirst : MaySlash first) (hname : IsTagName name)
    (hs : ∀ b, s.head? = some b → isNameChar b = false) :
    htmlParserNextToken (chr '<' :: (first ++ (name ++ s))) =
      let attrs := htmlParseAttributes s
      let selfClosing := accept (chr '/') attrs.2
      let close := accept (chr '>') selfClosing.2
      if close.1 then
        (some (if first = [] then .startTag name attrs.1 selfClosing.1
          else .endTag name attrs.1 selfClosing.1), close.2)
      else (none, close.2) := by
  have hbang : (first ++ (name ++ s)).head? ≠ some (chr '!') := by
    rcases hfirst with rfl | rfl
    · exact hname.head (by decide)
    · simp [chr]
  obtain ⟨hcomment, hdoctype⟩ := not_bang hbang
  unfold htmlParserNextToken
  rw [List.dropWhile_cons_of_neg (by decide)]
  simp only [if_true]
  rw [if_neg hcomment, if_neg hdoctype]
  unfold htmlParseTag
  rcases hfirst with rfl | rfl
  · have haccept : accept (chr '/') ([] ++ (name ++ s)) = (false, name ++ s) :=
      if_neg (hname.head (by decide))
    simp only [haccept, hname.passed hs]
    rfl
  · have haccept : accept (chr '/') ([chr '/'] ++ (name ++ s)) = (true, name ++ s) := rfl
    simp only [haccept, hname.passed hs]
    rfl

end PrismaticOS.Html
