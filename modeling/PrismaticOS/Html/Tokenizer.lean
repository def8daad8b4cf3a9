import PrismaticOS.Html.Dom

/-!
# The HTML tokenizer

The functions of `html/src/html/html_parser.c` from `html_parse_tag_name` to
`html_parser_next_token`.

## The model

The functions read `parser->input` from `parser->position` on and move the position. Here they
take the part of the input from the position on and return what is left of it. A token that is
`NULL` is `none`. Allocations succeed.
-/

namespace PrismaticOS.Html

open PrismaticOS.Libc

/-- An `html_token_t`: its type and the fields that the type uses. -/
inductive HtmlToken where
  /-- `HTML_TOKEN_DOCTYPE`. -/
  | doctype
  /-- `HTML_TOKEN_START_TAG`. -/
  | startTag (tagName : Str) (attrs : List (Str × Option Str)) (selfClosing : Bool)
  /-- `HTML_TOKEN_END_TAG`. -/
  | endTag (tagName : Str) (attrs : List (Str × Option Str)) (selfClosing : Bool)
  /-- `HTML_TOKEN_COMMENT`. -/
  | comment (data : Str)
  /-- `HTML_TOKEN_TEXT`. -/
  | text (data : Str)
  deriving DecidableEq

/-- The characters of a tag name. -/
def isNameChar (c : UInt8) : Bool := isalnum c || c == chr '-' || c == chr '_'

/-- The characters of the name of an attribute. -/
def isAttrChar (c : UInt8) : Bool :=
  !isspace c && c != chr '=' && c != chr '>' && c != chr '/'

/-- The characters of a value without quotes. -/
def isValueChar (c : UInt8) : Bool := !isspace c && c != chr '>' && c != chr '/'

/-- The character `c` is passed if it is the next one. -/
def accept (c : UInt8) (s : Str) : Bool × Str :=
  if s.head? = some c then (true, s.tail) else (false, s)

/-- `html_parse_tag_name`. -/
def htmlParseTagName (s : Str) : Option Str × Str :=
  if s.takeWhile isNameChar = [] then (none, s)
  else (some (s.takeWhile isNameChar), s.dropWhile isNameChar)

/-- `html_parse_attribute_value`: `NULL` at the end of the input, and for a string that the end
of the input cuts off. -/
def htmlParseAttributeValue (s : Str) : Option Str × Str :=
  match s.dropWhile isspace with
  | [] => (none, [])
  | quote :: r =>
    if quote = chr '"' ∨ quote = chr '\'' then
      match r.dropWhile (· != quote) with
      | [] => (none, [])
      | _ :: rest => (some (r.takeWhile (· != quote)), rest)
    else (some ((quote :: r).takeWhile isValueChar), (quote :: r).dropWhile isValueChar)

/-- The part of `html_parse_attributes` from the end of the name of an attribute on. -/
def htmlParseAfterName (s : Str) : Option Str × Str :=
  match accept (chr '=') (s.dropWhile isspace) with
  | (true, rest) => htmlParseAttributeValue rest
  | (false, rest) => (none, rest)

theorem accept_length (c : UInt8) (s : Str) : (accept c s).2.length ≤ s.length := by
  unfold accept
  split_ifs
  · simp
  · rfl

theorem attributeValue_length (s : Str) : (htmlParseAttributeValue s).2.length ≤ s.length := by
  have hspace := length_dropWhile_le isspace s
  unfold htmlParseAttributeValue
  split
  · simp
  · rename_i quote r heq
    rw [heq, List.length_cons] at hspace
    split_ifs
    · have hquote := length_dropWhile_le (· != quote) r
      split
      · simp
      · rename_i rest hrest
        rw [hrest, List.length_cons] at hquote
        show rest.length ≤ s.length
        omega
    · have hvalue := length_dropWhile_le isValueChar (quote :: r)
      rw [List.length_cons] at hvalue
      exact hvalue.trans hspace

theorem afterName_length (s : Str) : (htmlParseAfterName s).2.length ≤ s.length := by
  have hspace := length_dropWhile_le isspace s
  have haccept := accept_length (chr '=') (s.dropWhile isspace)
  unfold htmlParseAfterName
  split
  · rename_i heq
    rw [heq] at haccept
    exact (attributeValue_length _).trans (haccept.trans hspace)
  · rename_i heq
    rw [heq] at haccept
    exact haccept.trans hspace

/-- A loop that passes something leaves less. -/
theorem dropWhile_lt {f : UInt8 → Bool} {s : Str} (h : s.takeWhile f ≠ []) :
    (s.dropWhile f).length < s.length := by
  have hsum := congrArg List.length (List.takeWhile_append_dropWhile (p := f) (l := s))
  rw [List.length_append] at hsum
  have hpos := List.length_pos_iff.mpr h
  omega

/-- An attribute is passed. -/
theorem afterName_lt {s r : Str} {c : UInt8} (h : s.dropWhile isspace = c :: r)
    (hname : (c :: r).takeWhile isAttrChar ≠ []) :
    (htmlParseAfterName ((c :: r).dropWhile isAttrChar)).2.length < s.length := by
  have hspace := length_dropWhile_le isspace s
  rw [h] at hspace
  exact (afterName_length _).trans_lt ((dropWhile_lt hname).trans_le hspace)

/-- `html_parse_attributes`: the attributes, in order. -/
def htmlParseAttributes (s : Str) : List (Str × Option Str) × Str :=
  match h : s.dropWhile isspace with
  | [] => ([], [])
  | c :: r =>
    if c = chr '>' ∨ c = chr '/' then ([], c :: r)
    else if hname : (c :: r).takeWhile isAttrChar = [] then ([], c :: r)
    else
      let value := htmlParseAfterName ((c :: r).dropWhile isAttrChar)
      have := afterName_lt h hname
      let attrs := htmlParseAttributes value.2
      (((c :: r).takeWhile isAttrChar, value.1) :: attrs.1, attrs.2)
termination_by s.length

/-- The end of the attributes. -/
theorem attributes_end {s r : Str} {c : UInt8} (h : s.dropWhile isspace = c :: r)
    (hc : c = chr '>' ∨ c = chr '/') : htmlParseAttributes s = ([], c :: r) := by
  rw [htmlParseAttributes]
  split
  · rename_i heq
    rw [h] at heq
    cases heq
  · rename_i heq
    rw [h] at heq
    cases heq
    rw [if_pos hc]

/-- One attribute. -/
theorem attributes_cons {s t : Str} (h : s.dropWhile isspace = t)
    (hname : t.takeWhile isAttrChar ≠ []) : htmlParseAttributes s =
      let value := htmlParseAfterName (t.dropWhile isAttrChar)
      let attrs := htmlParseAttributes value.2
      ((t.takeWhile isAttrChar, value.1) :: attrs.1, attrs.2) := by
  rw [htmlParseAttributes]
  split
  · rename_i heq
    rw [heq] at h
    exact absurd (h ▸ rfl) hname
  · rename_i c r heq
    rw [h] at heq
    subst heq
    have hstop : ¬ (c = chr '>' ∨ c = chr '/') := by
      rintro (rfl | rfl) <;> exact hname rfl
    rw [if_neg hstop, dif_neg hname]

/-- `html_parse_tag`, after the `<`. -/
def htmlParseTag (s : Str) : Option HtmlToken × Str :=
  let isEnd := accept (chr '/') s
  match htmlParseTagName isEnd.2 with
  | (none, rest) => (none, rest)
  | (some tagName, rest) =>
    let attrs := htmlParseAttributes rest
    let selfClosing := accept (chr '/') attrs.2
    let close := accept (chr '>') selfClosing.2
    if close.1 then
      (some (if isEnd.1 then .endTag tagName attrs.1 selfClosing.1
        else .startTag tagName attrs.1 selfClosing.1), close.2)
    else (none, close.2)

/-- `html_parse_text`. -/
def htmlParseText (s : Str) : Option HtmlToken × Str :=
  if s.takeWhile (· != chr '<') = [] then (none, s)
  else (some (.text (s.takeWhile (· != chr '<'))), s.dropWhile (· != chr '<'))

/-- The loop of `html_parse_comment` up to the first `-->`, which it leaves: while there are
three characters, that is. -/
def findCommentEnd : Str → Str × Str
  | a :: b :: c :: r =>
    if a = chr '-' ∧ b = chr '-' ∧ c = chr '>' then ([], a :: b :: c :: r)
    else
      let found := findCommentEnd (b :: c :: r)
      (a :: found.1, found.2)
  | s => ([], s)

/-- `html_parse_comment`, after the `<!--`. -/
def htmlParseComment (s : Str) : Option HtmlToken × Str :=
  let found := findCommentEnd s
  if found.2.length ≤ 2 then (none, found.2) else (some (.comment found.1), found.2.drop 3)

/-- `html_parser_next_token`. -/
def htmlParserNextToken (s : Str) : Option HtmlToken × Str :=
  match s.dropWhile isspace with
  | [] => (none, [])
  | c :: r =>
    if c = chr '<' then
      if r.take 3 = str "!--" then htmlParseComment (r.drop 3)
      else if sameCase (r.take 8) (str "!DOCTYPE") then
        (some .doctype, ((c :: r).dropWhile (· != chr '>')).tail)
      else htmlParseTag r
    else htmlParseText (c :: r)

/-- What begins with neither `!--` nor `!DOCTYPE`. -/
theorem not_bang {r : Str} (h : r.head? ≠ some (chr '!')) :
    r.take 3 ≠ str "!--" ∧ ¬ sameCase (r.take 8) (str "!DOCTYPE") := by
  have hcomment : str "!--" = [chr '!', chr '-', chr '-'] := rfl
  have hdoctype : (str "!DOCTYPE").map tolower = chr '!' :: str "doctype" := rfl
  cases r with
  | nil => exact ⟨by simp [hcomment], by simp [sameCase, hdoctype]⟩
  | cons c r =>
    have hc : c ≠ chr '!' := by simpa using h
    constructor
    · simp [hcomment, hc]
    · simp only [sameCase, hdoctype, List.take_succ_cons, List.map_cons, beq_iff_eq,
        List.cons.injEq, not_and]
      intro hlow
      exact absurd (tolower_eq hlow (by decide)) hc

/-! ### What a token leaves -/

theorem attributes_length (s : Str) : (htmlParseAttributes s).2.length ≤ s.length := by
  fun_induction htmlParseAttributes s with
  | case1 s h => simp
  | case2 s c r h hstop =>
    rw [← h]
    exact length_dropWhile_le isspace s
  | case3 s c r h hstop hname =>
    rw [← h]
    exact length_dropWhile_le isspace s
  | case4 s c r h hstop hname value hlt attrs ih => exact ih.trans hlt.le

theorem tagName_length (s : Str) : (htmlParseTagName s).2.length ≤ s.length := by
  unfold htmlParseTagName
  split_ifs
  · rfl
  · exact length_dropWhile_le isNameChar s

theorem tag_length (s : Str) : (htmlParseTag s).2.length ≤ s.length := by
  have hslash := accept_length (chr '/') s
  have hname := tagName_length (accept (chr '/') s).2
  unfold htmlParseTag
  simp only
  generalize htmlParseTagName (accept (chr '/') s).2 = named at hname
  obtain ⟨_ | tagName, rest⟩ := named
  · exact hname.trans hslash
  · have hattrs := attributes_length rest
    have hself := accept_length (chr '/') (htmlParseAttributes rest).2
    have hclose := accept_length (chr '>') (accept (chr '/') (htmlParseAttributes rest).2).2
    have hall := hclose.trans (hself.trans (hattrs.trans (hname.trans hslash)))
    simp only
    split_ifs
    all_goals exact hall

theorem findCommentEnd_length (s : Str) : (findCommentEnd s).2.length ≤ s.length := by
  fun_induction findCommentEnd s with
  | case1 a b c r h => rfl
  | case2 a b c r h found ih => exact ih.trans (Nat.le_succ _)
  | case3 s h => rfl

/-- **Every token** takes a part of the input. -/
theorem nextToken_length {s : Str} {token : HtmlToken}
    (h : (htmlParserNextToken s).1 = some token) :
    (htmlParserNextToken s).2.length < s.length := by
  have hspace := length_dropWhile_le isspace s
  unfold htmlParserNextToken at h ⊢
  generalize s.dropWhile isspace = s' at h hspace
  cases s' with
  | nil => cases h
  | cons c r =>
    rw [List.length_cons] at hspace
    simp only
    by_cases hlt : c = chr '<'
    · rw [if_pos hlt]
      apply lt_of_le_of_lt _ hspace
      split_ifs with hcomment hdoctype
      · have hfind := findCommentEnd_length (r.drop 3)
        unfold htmlParseComment
        simp only
        split_ifs
        · exact hfind.trans (by simp)
        · simp only [List.length_drop] at hfind ⊢
          omega
      · have hskip := length_dropWhile_le (· != chr '>') (c :: r)
        rw [List.length_cons] at hskip
        show List.length (List.tail _) ≤ _
        rw [List.length_tail]
        omega
      · exact tag_length r
    · rw [if_neg hlt]
      unfold htmlParseText
      have hne : (c :: r).takeWhile (· != chr '<') ≠ [] := by
        rw [List.takeWhile_cons_of_pos (by simpa using hlt)]
        simp
      rw [if_neg hne]
      exact lt_of_lt_of_le (dropWhile_lt hne) hspace

end PrismaticOS.Html
