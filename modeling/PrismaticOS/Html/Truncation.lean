import PrismaticOS.Html.Parser

/-!
# Input that the parser leaves

`html_parser_next_token` returns `NULL` at the end of the input and at everything it cannot
read, and `html_build_dom_tree` ends at the first `NULL`. The input after it is not read, and
`has_errors` is not set.

## The model

Which inputs are read to their end is said by an automaton that reads one character after the
other: it is `Place`, what the character read last stands in, and stops where a character fits
nothing. The automaton says nothing about tokens.

## What is proved

* `content_token` — the automaton at the begin of a token, and the token.
* `no_truncation` — the input is read to its end, or an error is reported, exactly if the
  automaton reads it.
-/

namespace PrismaticOS.Html

open PrismaticOS.Library PrismaticOS.Libc

/-! ### The automaton -/

/-- What a character stands in. -/
inductive Place where
  /-- Text, or the end of a token. -/
  | content
  /-- After `<`. -/
  | opened
  /-- After `</`. -/
  | closing
  /-- The name of a tag. -/
  | name
  /-- Before an attribute. -/
  | attrs
  /-- The name of an attribute. -/
  | attrName
  /-- After the name of an attribute. -/
  | afterName
  /-- After the `=` of an attribute. -/
  | value
  /-- A value without quotes. -/
  | unquoted
  /-- A value in quotes. -/
  | quoted (quote : UInt8)
  /-- After the `/` at the end of a tag. -/
  | slash
  /-- After `<!`. -/
  | bang
  /-- After `<!-`. -/
  | dash
  /-- After `<!--`. -/
  | commentStart
  /-- A comment. -/
  | comment
  /-- After one `-` in a comment. -/
  | comment1
  /-- After two `-` in a comment. -/
  | comment2
  /-- Before the rest of the word `DOCTYPE`, in small letters. -/
  | word (rest : Str)
  /-- After `<!DOCTYPE`. -/
  | doctype
  deriving DecidableEq

/-- A character before an attribute. -/
def readAttrs (c : UInt8) : Option Place :=
  if isspace c then some .attrs
  else if c = chr '>' then some .content
  else if c = chr '/' then some .slash
  else if c = chr '=' then none
  else some .attrName

/-- A character after the name of an attribute. -/
def readAfterName (c : UInt8) : Option Place :=
  if isspace c then some .afterName
  else if c = chr '=' then some .value
  else readAttrs c

/-- A character in a value without quotes. -/
def readUnquoted (c : UInt8) : Option Place :=
  if isValueChar c then some .unquoted else readAttrs c

/-- What the next character stands in. -/
def Place.read : Place → UInt8 → Option Place
  | .content, c => some (if c = chr '<' then .opened else .content)
  | .opened, c =>
    if c = chr '/' then some .closing
    else if c = chr '!' then some .bang
    else if isNameChar c then some .name
    else none
  | .closing, c => if isNameChar c then some .name else none
  | .name, c => if isNameChar c then some .name else readAttrs c
  | .attrs, c => readAttrs c
  | .attrName, c => if isAttrChar c then some .attrName else readAfterName c
  | .afterName, c => readAfterName c
  | .value, c =>
    if isspace c then some .value
    else if c = chr '"' ∨ c = chr '\'' then some (.quoted c)
    else readUnquoted c
  | .unquoted, c => readUnquoted c
  | .quoted quote, c => some (if c = quote then .attrs else .quoted quote)
  | .slash, c => if c = chr '>' then some .content else none
  | .bang, c =>
    if c = chr '-' then some .dash
    else if tolower c = chr 'd' then some (.word (str "octype"))
    else none
  | .dash, c => if c = chr '-' then some .commentStart else none
  | .commentStart, c | .comment, c => some (if c = chr '-' then .comment1 else .comment)
  | .comment1, c => some (if c = chr '-' then .comment2 else .comment)
  | .comment2, c =>
    some (if c = chr '>' then .content else if c = chr '-' then .comment2 else .comment)
  | .word [], _ => none
  | .word [a], c => if tolower c = a then some .doctype else none
  | .word (a :: w), c => if tolower c = a then some (.word w) else none
  | .doctype, c => some (if c = chr '>' then .content else .doctype)

/-! ### What a character does where -/

section
variable (c : UInt8)

@[simp] theorem read_content :
    Place.content.read c = some (if c = chr '<' then .opened else .content) := rfl

@[simp] theorem read_opened : Place.opened.read c =
    if c = chr '/' then some .closing
    else if c = chr '!' then some .bang
    else if isNameChar c then some .name
    else none := rfl

@[simp] theorem read_closing :
    Place.closing.read c = if isNameChar c then some .name else none := rfl

@[simp] theorem read_name :
    Place.name.read c = if isNameChar c then some .name else readAttrs c := rfl

@[simp] theorem read_attrs : Place.attrs.read c = readAttrs c := rfl

@[simp] theorem read_attrName :
    Place.attrName.read c = if isAttrChar c then some .attrName else readAfterName c := rfl

@[simp] theorem read_afterName : Place.afterName.read c = readAfterName c := rfl

@[simp] theorem read_value : Place.value.read c =
    if isspace c then some .value
    else if c = chr '"' ∨ c = chr '\'' then some (.quoted c)
    else readUnquoted c := rfl

@[simp] theorem read_unquoted : Place.unquoted.read c = readUnquoted c := rfl

@[simp] theorem read_quoted (quote : UInt8) : (Place.quoted quote).read c =
    some (if c = quote then .attrs else .quoted quote) := rfl

@[simp] theorem read_slash :
    Place.slash.read c = if c = chr '>' then some .content else none := rfl

@[simp] theorem read_bang : Place.bang.read c =
    if c = chr '-' then some .dash
    else if tolower c = chr 'd' then some (.word (str "octype"))
    else none := rfl

@[simp] theorem read_dash :
    Place.dash.read c = if c = chr '-' then some .commentStart else none := rfl

@[simp] theorem read_comment :
    Place.comment.read c = some (if c = chr '-' then .comment1 else .comment) := rfl

@[simp] theorem read_comment1 :
    Place.comment1.read c = some (if c = chr '-' then .comment2 else .comment) := rfl

@[simp] theorem read_comment2 : Place.comment2.read c =
    some (if c = chr '>' then .content else if c = chr '-' then .comment2 else .comment) := rfl

@[simp] theorem read_word_nil : (Place.word []).read c = none := rfl

@[simp] theorem read_word_single (a : UInt8) :
    (Place.word [a]).read c = if tolower c = a then some .doctype else none := rfl

@[simp] theorem read_word_cons (a b : UInt8) (w : Str) : (Place.word (a :: b :: w)).read c =
    if tolower c = a then some (.word (b :: w)) else none := rfl

@[simp] theorem read_doctype :
    Place.doctype.read c = some (if c = chr '>' then .content else .doctype) := rfl

end

/-- The input may end here: not in a comment, nor in the first characters of a comment or of
a doctype. -/
def Place.final : Place → Bool
  | .bang | .dash | .comment | .comment1 | .comment2 | .word _ => false
  | _ => true

/-- The input is read to its end. -/
def complete : Place → Str → Bool
  | p, [] => p.final
  | p, c :: s =>
    match p.read c with
    | some q => complete q s
    | none => false

/-! ### Characters passed over -/

/-- Places that read characters of a kind without leaving, and other characters as another
place does. -/
theorem complete_skip {p q : Place} {f : UInt8 → Bool} (hin : ∀ c, f c = true → p.read c = some p)
    (hout : ∀ c, f c = false → p.read c = q.read c) (hend : p.final = q.final) (s : Str) :
    complete p s = complete q (s.dropWhile f) := by
  induction s with
  | nil => exact hend
  | cons c s ih =>
    by_cases hc : f c = true
    · rw [List.dropWhile_cons_of_pos hc, ← ih, complete, hin c hc]
    · rw [List.dropWhile_cons_of_neg hc, complete, complete, hout c (by simpa using hc)]

theorem complete_content (s : Str) :
    complete .content s = complete .content (s.dropWhile (· != chr '<')) := by
  apply complete_skip
  · intro c hc
    have hne : c ≠ chr '<' := by simpa using hc
    simp [hne]
  · intro c hc
    rfl
  · rfl

theorem complete_content_space (s : Str) :
    complete .content s = complete .content (s.dropWhile isspace) := by
  apply complete_skip
  · intro c hc
    have hne : c ≠ chr '<' := by
      rintro rfl
      revert hc
      decide
    simp [hne]
  · intro c hc
    rfl
  · rfl

theorem complete_name (s : Str) :
    complete .name s = complete .attrs (s.dropWhile isNameChar) := by
  apply complete_skip
  · intro c hc
    simp [hc]
  · intro c hc
    simp [hc]
  · rfl

theorem complete_attrs (s : Str) :
    complete .attrs s = complete .attrs (s.dropWhile isspace) := by
  apply complete_skip
  · intro c hc
    simp [readAttrs, hc]
  · intro c hc
    rfl
  · rfl

theorem complete_attrName (s : Str) :
    complete .attrName s = complete .afterName (s.dropWhile isAttrChar) := by
  apply complete_skip
  · intro c hc
    simp [hc]
  · intro c hc
    simp [hc]
  · rfl

theorem complete_afterName (s : Str) :
    complete .afterName s = complete .afterName (s.dropWhile isspace) := by
  apply complete_skip
  · intro c hc
    simp [readAfterName, hc]
  · intro c hc
    rfl
  · rfl

theorem complete_value (s : Str) :
    complete .value s = complete .value (s.dropWhile isspace) := by
  apply complete_skip
  · intro c hc
    simp [hc]
  · intro c hc
    rfl
  · rfl

theorem complete_unquoted (s : Str) :
    complete .unquoted s = complete .attrs (s.dropWhile isValueChar) := by
  apply complete_skip
  · intro c hc
    simp [readUnquoted, hc]
  · intro c hc
    simp [readUnquoted, hc]
  · rfl

theorem complete_quoted (quote : UInt8) (s : Str) : complete (.quoted quote) s =
    complete (.quoted quote) (s.dropWhile (· != quote)) := by
  apply complete_skip
  · intro c hc
    have hne : c ≠ quote := by simpa using hc
    simp [hne]
  · intro c hc
    rfl
  · rfl

theorem complete_doctype (s : Str) :
    complete .doctype s = complete .content (s.dropWhile (· != chr '>')).tail := by
  induction s with
  | nil => rfl
  | cons c s ih =>
    by_cases hc : c = chr '>'
    · rw [List.dropWhile_cons_of_neg (by simpa using hc)]
      simp [complete, hc]
    · rw [List.dropWhile_cons_of_pos (by simpa using hc), ← ih]
      simp [complete, hc]

/-! ### Attributes -/

theorem complete_parseValue (s : Str) :
    complete .value s = complete .attrs (htmlParseAttributeValue s).2 := by
  rw [complete_value]
  unfold htmlParseAttributeValue
  generalize hs : s.dropWhile isspace = s'
  cases s' with
  | nil => rfl
  | cons quote r =>
    have hspace : isspace quote = false := dropWhile_head hs
    simp only
    by_cases hq : quote = chr '"' ∨ quote = chr '\''
    · rw [if_pos hq]
      have hread : complete .value (quote :: r) = complete (.quoted quote) r := by
        simp [complete, hspace, hq]
      rw [hread, complete_quoted]
      generalize hr : r.dropWhile (· != quote) = r'
      cases r' with
      | nil => rfl
      | cons c rest =>
        have hc : c = quote := by simpa using dropWhile_head hr
        simp [complete, hc]
    · rw [if_neg hq, ← complete_unquoted]
      simp [complete, hspace, hq]

theorem complete_parseAfterName (s : Str) :
    complete .afterName s = complete .attrs (htmlParseAfterName s).2 := by
  rw [complete_afterName]
  unfold htmlParseAfterName accept
  generalize hs : s.dropWhile isspace = s'
  cases s' with
  | nil => rfl
  | cons c r =>
    have hspace : isspace c = false := dropWhile_head hs
    by_cases hc : c = chr '='
    · subst hc
      rw [if_pos (by rfl)]
      simp only [List.tail_cons]
      rw [← complete_parseValue]
      simp [complete, readAfterName, hspace]
    · rw [if_neg (by simpa using hc)]
      simp [complete, readAfterName, hspace, hc]

/-- Reading attributes does not leave the inside of the tag. -/
theorem complete_parseAttributes (s : Str) :
    complete .attrs s = complete .attrs (htmlParseAttributes s).2 := by
  fun_induction htmlParseAttributes s with
  | case1 s h => rw [complete_attrs, h]
  | case2 s c r h hstop => rw [complete_attrs, h]
  | case3 s c r h hstop hname => rw [complete_attrs, h]
  | case4 s c r h hstop hname value hlt attrs ih =>
    rw [complete_attrs, h, ← ih, ← complete_parseAfterName, ← complete_attrName]
    have hspace : isspace c = false := dropWhile_head h
    have hattr : isAttrChar c = true := by
      by_contra hno
      exact hname (List.takeWhile_cons_of_neg hno)
    rw [not_or] at hstop
    have hne : c ≠ chr '=' := by
      rintro rfl
      revert hattr
      decide
    simp [complete, readAttrs, hspace, hstop.1, hstop.2, hne, hattr]

/-- What stands after the attributes. -/
theorem attributes_stop {s r : Str} {c : UInt8} (h : (htmlParseAttributes s).2 = c :: r) :
    c = chr '>' ∨ c = chr '/' ∨ c = chr '=' := by
  fun_induction htmlParseAttributes s with
  | case1 s heq => cases h
  | case2 s c r heq hstop =>
    cases h
    tauto
  | case3 s c r heq hstop hname =>
    cases h
    have hspace : isspace c = false := dropWhile_head heq
    have hattr : isAttrChar c = false := by
      by_contra hno
      rw [List.takeWhile_cons_of_pos (by simpa using hno)] at hname
      cases hname
    rw [not_or] at hstop
    simp only [isAttrChar, hspace, Bool.not_false, Bool.true_and] at hattr
    simp_all
  | case4 s c r heq hstop hname value hlt attrs ih => exact ih h

/-! ### Tokens -/

/-- The automaton goes on after a token, and without one nothing may be left. -/
def goesOn (t : Option HtmlToken × Str) : Bool :=
  if t.1.isSome then complete .content t.2 else t.2.isEmpty

/-- The rest of a tag after its attributes. -/
theorem complete_tagEnd {s : Str}
    (h : ∀ c r, s = c :: r → c = chr '>' ∨ c = chr '/' ∨ c = chr '=') (token : HtmlToken) :
    complete .attrs s = goesOn
      (if (accept (chr '>') (accept (chr '/') s).2).1 then
        (some token, (accept (chr '>') (accept (chr '/') s).2).2)
      else (none, (accept (chr '>') (accept (chr '/') s).2).2)) := by
  cases s with
  | nil => rfl
  | cons c r =>
    rcases h c r rfl with rfl | rfl | rfl
    · rfl
    · cases r with
      | nil => rfl
      | cons b r =>
        by_cases hb : b = chr '>'
        · subst hb
          rfl
        · have hread : complete .attrs (chr '/' :: b :: r) = false := by
            simp [complete, show readAttrs (chr '/') = some .slash from rfl, hb]
          rw [hread]
          simp [accept, goesOn, hb]
    · rfl

/-- A tag from its name on. -/
theorem complete_closing (isEnd : Bool) (s : Str) : complete .closing s = goesOn
    (match htmlParseTagName s with
      | (none, rest) => (none, rest)
      | (some tagName, rest) =>
        let attrs := htmlParseAttributes rest
        let selfClosing := accept (chr '/') attrs.2
        let close := accept (chr '>') selfClosing.2
        if close.1 then
          (some (if isEnd then .endTag tagName attrs.1 selfClosing.1
            else .startTag tagName attrs.1 selfClosing.1), close.2)
        else (none, close.2)) := by
  unfold htmlParseTagName
  cases s with
  | nil => rfl
  | cons c s =>
    by_cases hc : isNameChar c = true
    · rw [if_neg (by simp [hc])]
      simp only
      have hread : complete .closing (c :: s) = complete .name (c :: s) := by
        simp [complete, hc]
      rw [hread, complete_name, complete_parseAttributes]
      exact complete_tagEnd (fun _ _ h => attributes_stop h) _
    · rw [if_pos (List.takeWhile_cons_of_neg hc)]
      simp [complete, hc, goesOn]

/-- A `<` that begins neither a comment nor a doctype. -/
theorem complete_tag {s : Str} (h : s.head? ≠ some (chr '!')) :
    complete .opened s = goesOn (htmlParseTag s) := by
  unfold htmlParseTag
  simp only
  have hread : complete .opened s = complete .closing (accept (chr '/') s).2 := by
    cases s with
    | nil => rfl
    | cons c s =>
      have hbang : c ≠ chr '!' := by simpa using h
      by_cases hc : c = chr '/'
      · subst hc
        rfl
      · simp [complete, accept, hc, hbang]
  rw [hread]
  exact complete_closing _ _

/-- The end of a comment. -/
def afterComment (s : Str) : Bool :=
  if (findCommentEnd s).2.length ≤ 2 then false
  else complete .content ((findCommentEnd s).2.drop 3)

/-- A character that no `-->` begins at. -/
theorem afterComment_cons {c : UInt8} {s : Str}
    (h : ∀ r, ¬ (c = chr '-' ∧ s = chr '-' :: chr '>' :: r)) :
    afterComment (c :: s) = afterComment s := by
  unfold afterComment
  match s with
  | [] => rfl
  | [_] => rfl
  | a :: b :: s =>
    have hfind : (findCommentEnd (c :: a :: b :: s)).2 = (findCommentEnd (a :: b :: s)).2 := by
      rw [findCommentEnd, if_neg]
      rintro ⟨hc, ha, hb⟩
      exact h s ⟨hc, ha ▸ hb ▸ rfl⟩
    rw [hfind]

/-- The automaton in a comment, after no `-`, after one and after two. -/
theorem complete_comment (s : Str) : complete .comment s = afterComment s ∧
    complete .comment1 s = afterComment (chr '-' :: s) ∧
    complete .comment2 s = afterComment (chr '-' :: chr '-' :: s) := by
  induction s with
  | nil => exact ⟨rfl, rfl, rfl⟩
  | cons c s ih =>
    obtain ⟨ih0, ih1, ih2⟩ := ih
    by_cases hdash : c = chr '-'
    · subst hdash
      refine ⟨ih1, ih2, ?_⟩
      rw [afterComment_cons]
      · exact ih2
      · rintro r ⟨-, heq⟩
        simp only [List.cons.injEq] at heq
        exact absurd heq.2.1 (by decide)
    · have hskip : afterComment (c :: s) = afterComment s :=
        afterComment_cons fun r h => hdash h.1
      have hskip1 : afterComment (chr '-' :: c :: s) = afterComment (c :: s) := by
        apply afterComment_cons
        rintro r ⟨-, heq⟩
        simp only [List.cons.injEq] at heq
        exact hdash heq.1
      refine ⟨?_, ?_, ?_⟩
      · rw [hskip, ← ih0]
        simp [complete, hdash]
      · rw [hskip1, hskip, ← ih0]
        simp [complete, hdash]
      · by_cases hclose : c = chr '>'
        · subst hclose
          simp [complete, afterComment, findCommentEnd]
        · rw [afterComment_cons, hskip1, hskip, ← ih0]
          · simp [complete, hdash, hclose]
          · rintro r ⟨-, heq⟩
            simp only [List.cons.injEq] at heq
            exact hclose heq.2.1

/-- The loop does not pass the last character. -/
theorem findCommentEnd_ne_nil {s : Str} (h : s ≠ []) : (findCommentEnd s).2 ≠ [] := by
  fun_induction findCommentEnd s with
  | case1 a b c r hclose => exact h
  | case2 a b c r hclose found ih => exact ih (List.cons_ne_nil b _)
  | case3 s hshort => exact h

theorem complete_commentStart (s : Str) :
    complete .commentStart s = goesOn (htmlParseComment s) := by
  cases s with
  | nil => rfl
  | cons c s =>
    have hread : complete .commentStart (c :: s) = complete .comment (c :: s) := rfl
    rw [hread, (complete_comment _).1]
    unfold afterComment htmlParseComment
    simp only
    split_ifs with hshort
    · have hleft := findCommentEnd_ne_nil (List.cons_ne_nil c s)
      simpa [goesOn] using hleft
    · rfl

/-- A word, read letter by letter. -/
theorem complete_word {w : Str} (hw : w ≠ []) (s : Str) : complete (.word w) s =
    if (s.take w.length).map tolower = w then complete .doctype (s.drop w.length) else false := by
  induction w generalizing s with
  | nil => exact absurd rfl hw
  | cons a w ih =>
    cases s with
    | nil => rfl
    | cons c s =>
      cases w with
      | nil =>
        by_cases hc : tolower c = a
        · simp [complete, hc]
        · simp [complete, hc]
      | cons b w =>
        by_cases hc : tolower c = a
        · have hread : complete (.word (a :: b :: w)) (c :: s) = complete (.word (b :: w)) s := by
            simp [complete, hc]
          rw [hread, ih (List.cons_ne_nil b w)]
          simp [hc]
        · simp [complete, hc]

/-- A doctype is read up to the next `>`. -/
theorem doctype_skip {r : Str} (h : sameCase (r.take 8) (str "!DOCTYPE")) :
    ((chr '<' :: r).dropWhile (· != chr '>')).tail =
      ((r.drop 8).dropWhile (· != chr '>')).tail := by
  have hword : (r.take 8).map tolower = (str "!DOCTYPE").map tolower := by
    simpa [sameCase] using h
  have hpass : ∀ c ∈ r.take 8, (c != chr '>') = true := by
    intro c hc
    have hlow : tolower c ∈ (str "!DOCTYPE").map tolower := hword ▸ List.mem_map_of_mem hc
    by_contra hno
    have heq : c = chr '>' := by simpa using hno
    subst heq
    revert hlow
    decide
  rw [List.dropWhile_cons_of_pos (by decide)]
  conv_lhs => rw [← List.take_append_drop 8 r]
  rw [List.dropWhile_append_of_pos hpass]

/-- A `<!`. -/
theorem complete_bang (r : Str) : complete .bang r =
    if (chr '!' :: r).take 3 = str "!--" then complete .commentStart (r.drop 2)
    else if sameCase ((chr '!' :: r).take 8) (str "!DOCTYPE") then complete .doctype (r.drop 7)
    else false := by
  have hcomment : str "!--" = [chr '!', chr '-', chr '-'] := rfl
  have hdoctype : (str "!DOCTYPE").map tolower = chr '!' :: chr 'd' :: str "octype" := rfl
  have hlow : tolower (chr '!') = chr '!' := rfl
  cases r with
  | nil => rfl
  | cons c r =>
    simp only [hcomment, sameCase, hdoctype, List.take_succ_cons, List.map_cons, hlow, beq_iff_eq,
      List.cons.injEq, true_and, List.drop_succ_cons]
    by_cases hdash : c = chr '-'
    · subst hdash
      have hread : complete .bang (chr '-' :: r) = complete .dash r := rfl
      have hd : tolower (chr '-') ≠ chr 'd' := by decide
      rw [hread]
      cases r with
      | nil => simp [complete, Place.final, hd]
      | cons b r =>
        by_cases hb : b = chr '-'
        · simp [complete, hb]
        · simp [complete, hb, hd]
    · by_cases hd : tolower c = chr 'd'
      · have hread : complete .bang (c :: r) = complete (.word (str "octype")) r := by
          simp [complete, hdash, hd]
        rw [hread, complete_word (by decide)]
        simp [hdash, hd, show (str "octype").length = 6 from rfl]
      · simp [complete, hdash, hd]

/-- **A token**: what the automaton does from its begin on it does from its end on, and where
no token is found it reads the input exactly if nothing is left. -/
theorem content_token (s : Str) : complete .content s = goesOn (htmlParserNextToken s) := by
  rw [complete_content_space]
  unfold htmlParserNextToken
  generalize hs : s.dropWhile isspace = s'
  cases s' with
  | nil => rfl
  | cons c r =>
    simp only
    by_cases hc : c = chr '<'
    · subst hc
      rw [if_pos rfl]
      have hread : complete .content (chr '<' :: r) = complete .opened r := rfl
      rw [hread]
      by_cases hbang : r.head? = some (chr '!')
      · obtain ⟨t, rfl⟩ : ∃ t, r = chr '!' :: t := by
          cases r with
          | nil => cases hbang
          | cons c t => exact ⟨t, by rw [Option.some.inj hbang]⟩
        have hopened : complete .opened (chr '!' :: t) = complete .bang t := rfl
        rw [hopened, complete_bang]
        split_ifs with hcomment hdoctype
        · exact complete_commentStart _
        · rw [complete_doctype, doctype_skip hdoctype]
          rfl
        · rfl
      · obtain ⟨hcomment, hdoctype⟩ := not_bang hbang
        rw [if_neg hcomment, if_neg hdoctype]
        exact complete_tag hbang
    · rw [if_neg hc]
      unfold htmlParseText
      rw [if_neg (by simp [hc]), complete_content]
      rfl

/-! ### The whole input -/

/-- What is left of the input after the last token. -/
def leftover (s : Str) : Str :=
  match h : htmlParserNextToken s with
  | (none, rest) => rest
  | (some token, rest) =>
    have : rest.length < s.length := by
      have hlt := @nextToken_length s token (by rw [h])
      rwa [h] at hlt
    leftover rest
termination_by s.length

/-- **The automaton** reads the input exactly if the tokens are all of it. -/
theorem complete_iff (s : Str) : complete .content s = true ↔ leftover s = [] := by
  fun_induction leftover s with
  | case1 s rest h =>
    rw [content_token, h]
    simp [goesOn]
  | case2 s token rest h hlt ih =>
    rw [content_token, h, ← ih]
    simp [goesOn]

/-! ### The parser -/

variable {lo document current : ℕ} {d : Dom} {st : HtmlState}

/-- The nodes that the parser made after the first `lo` ones lie below the document, and their
parents were made before them. -/
structure Rooted (lo document current : ℕ) (d : Dom) : Prop where
  /-- The document was there before them. -/
  made : document ≠ 0 ∧ document ≤ lo
  /-- The first nodes are still there. -/
  old : lo ≤ d.count
  /-- The open element is one of them, or the document. -/
  below : current = document ∨ lo < current ∧ current ≤ d.count
  /-- So are the parents. -/
  parents : ∀ c, lo < c → c ≤ d.count →
    d.parent c < c ∧ (d.parent c = document ∨ lo < d.parent c)

theorem Rooted.created (h : Rooted lo document current d) : Created d current := by
  obtain ⟨hne, hle⟩ := h.made
  have hold := h.old
  rcases h.below with heq | ⟨hlo, hcount⟩
  · exact heq ▸ ⟨hne, hle.trans hold⟩
  · exact ⟨by omega, hcount⟩

/-- A new node below the open element. -/
theorem Rooted.append (h : Rooted lo document current d) (node : DomNode) :
    Rooted lo document current (domNodeAppendChild (d.add node) current d.fresh) ∧
      Rooted lo document d.fresh (domNodeAppendChild (d.add node) current d.fresh) := by
  have hold := h.old
  have hcreated := h.created
  have hcount : (domNodeAppendChild (d.add node) current d.fresh).count = d.count + 1 :=
    appendChild_count ..
  have hparent : (domNodeAppendChild (d.add node) current d.fresh).parent =
      Function.update (d.add node).parent d.fresh current :=
    appendChild_parent _ hcreated.1 (Nat.succ_ne_zero _)
  have hparents : ∀ c, lo < c → c ≤ d.count + 1 →
      Function.update (d.add node).parent d.fresh current c < c ∧
        (Function.update (d.add node).parent d.fresh current c = document ∨
          lo < Function.update (d.add node).parent d.fresh current c) := by
    intro c hlo hc
    by_cases hfresh : c = d.fresh
    · rw [hfresh, Function.update_self]
      exact ⟨Nat.lt_succ_of_le hcreated.2, h.below.imp_right And.left⟩
    · rw [Function.update_of_ne hfresh]
      have hread : (d.add node).parent c = d.parent c :=
        congrArg DomNode.parent (Dom.add_of_ne d node hfresh)
      rw [hread]
      apply h.parents c hlo
      exact Nat.le_of_lt_succ (lt_of_le_of_ne hc hfresh)
  constructor
  · refine ⟨h.made, by omega, ?_, ?_⟩
    · rw [hcount]
      exact h.below.imp_right fun hlt => ⟨hlt.1, hlt.2.trans (Nat.le_succ _)⟩
    · rw [hcount, hparent]
      exact hparents
  · refine ⟨h.made, by omega, .inr ⟨Nat.lt_succ_of_le hold, hcount.ge⟩, ?_⟩
    rw [hcount, hparent]
    exact hparents

/-- **The loop of an end tag** ends: the parents lead to the document. -/
theorem findOpen_ends (h : Rooted lo document current d) (tagName : Str) {fuel : ℕ}
    (hfuel : current < fuel) : ∃ found, findOpen d document tagName fuel current = some found ∧
      ∀ c, found = some c → lo < c ∧ c ≤ d.count := by
  induction fuel generalizing current with
  | zero => cases hfuel
  | succ fuel ih =>
    unfold findOpen
    split_ifs with hdone hmatch
    · exact ⟨none, rfl, fun c hc => by cases hc⟩
    · rw [not_or] at hdone
      refine ⟨some current, rfl, fun c hc => ?_⟩
      cases hc
      exact h.below.resolve_left hdone.2
    · rw [not_or] at hdone
      obtain ⟨hlo, hcount⟩ := h.below.resolve_left hdone.2
      obtain ⟨hlt, habove⟩ := h.parents current hlo hcount
      apply ih
      · exact ⟨h.made, h.old, habove.imp_right fun habove => ⟨habove, by omega⟩, h.parents⟩
      · omega

/-- The parser's nodes. -/
def HtmlState.Rooted (lo : ℕ) (st : HtmlState) : Prop :=
  Html.Rooted lo st.parser.document st.parser.currentNode st.dom

/-- Flags do not matter. -/
theorem Flagged.rooted {st st' : HtmlState} (hf : Flagged st st') (h : st.Rooted lo) :
    st'.Rooted lo := by
  unfold HtmlState.Rooted
  rw [hf.kept.document, hf.currentNode, hf.dom]
  exact h

theorem startTag_rooted (h : st.Rooted lo) (tagName : Str) (attrs : List (Str × Option Str))
    (selfClosing : Bool) : Kept st (htmlHandleStartTag st tagName attrs selfClosing) ∧
      (htmlHandleStartTag st tagName attrs selfClosing).Rooted lo := by
  obtain ⟨node, hstart, hnew⟩ := startElement_new st.dom tagName attrs
  unfold htmlHandleStartTag
  rw [hstart]
  simp only
  obtain ⟨hsame, hopen⟩ := Rooted.append h node
  have hf := startSpecial_flagged { st with
    dom := domNodeAppendChild (st.dom.add node) st.parser.currentNode st.dom.fresh }
    tagName st.dom.fresh
  split_ifs
  · refine ⟨⟨hf.kept.input, hf.kept.hasErrors, hf.kept.document⟩, ?_⟩
    show Html.Rooted lo _ _ _
    simp only [HtmlState.modify, hf.kept.document, hf.dom]
    exact hopen
  · exact ⟨⟨hf.kept.input, hf.kept.hasErrors, hf.kept.document⟩, hf.rooted hsame⟩

theorem endTag_rooted (h : st.Rooted lo) (tagName : Str) : ∃ st',
    htmlHandleEndTag st tagName = some st' ∧ Kept st st' ∧ st'.Rooted lo := by
  obtain ⟨found, hfind, hfound⟩ := findOpen_ends h tagName (Nat.lt_succ_of_le h.created.2)
  refine ⟨_, by rw [htmlHandleEndTag, hfind, Option.map_some], ?_⟩
  cases found with
  | none =>
    have hf := endSpecial_flagged st tagName
    exact ⟨hf.kept, hf.rooted h⟩
  | some current =>
    obtain ⟨hlo, hcount⟩ := hfound current rfl
    obtain ⟨hlt, habove⟩ := h.parents current hlo hcount
    simp only
    split_ifs with hparent
    · have hf := endSpecial_flagged (st.modify fun p =>
        { p with currentNode := st.dom.parent current }) tagName
      refine ⟨⟨hf.kept.input, hf.kept.hasErrors, hf.kept.document⟩, hf.rooted ?_⟩
      exact ⟨h.made, h.old, habove.imp_right fun habove => ⟨habove, hlt.le.trans hcount⟩,
        h.parents⟩
    · have hf := endSpecial_flagged st tagName
      exact ⟨hf.kept, hf.rooted h⟩

theorem text_rooted (h : st.Rooted lo) (data : Str) :
    Kept st (htmlHandleText st data) ∧ (htmlHandleText st data).Rooted lo := by
  unfold htmlHandleText
  split_ifs
  · exact ⟨⟨rfl, rfl, rfl⟩, h⟩
  · exact ⟨⟨rfl, rfl, rfl⟩, (Rooted.append h _).1⟩

/-- **Every token** is handled. -/
theorem handleToken_rooted (h : st.Rooted lo) (token : HtmlToken) :
    ∃ st', htmlHandleToken st token = some st' ∧ Kept st st' ∧ st'.Rooted lo := by
  cases token with
  | startTag tagName attrs selfClosing => exact ⟨_, rfl, startTag_rooted h tagName attrs selfClosing⟩
  | endTag tagName attrs selfClosing => exact endTag_rooted h tagName
  | text data => exact ⟨_, rfl, text_rooted h data⟩
  | comment data => exact ⟨st, rfl, ⟨rfl, rfl, rfl⟩, h⟩
  | doctype => exact ⟨st, rfl, ⟨rfl, rfl, rfl⟩, h⟩

/-- **The loop** ends, before what is left of the input, without an error. -/
theorem buildLoop_ends (h : st.Rooted lo) (s : Str) : ∃ st', buildLoop st s = some st' ∧
    st'.parser.input = st.parser.input ∧ st'.parser.hasErrors = st.parser.hasErrors ∧
    st'.parser.position = st.parser.input.length - (leftover s).length := by
  fun_induction leftover s generalizing st with
  | case1 s rest hnone => exact ⟨st.at rest, buildLoop_none hnone, rfl, rfl, rfl⟩
  | case2 s token rest hsome hlt ih =>
    rw [buildLoop_some hsome]
    obtain ⟨st₁, htoken, hkept, hrooted⟩ :=
      handleToken_rooted (show (st.at rest).Rooted lo from h) token
    obtain ⟨st', hloop, hinput, herrors, hposition⟩ := ih hrooted
    refine ⟨st', by rw [htoken]; exact hloop, hinput.trans hkept.input,
      herrors.trans hkept.hasErrors, ?_⟩
    rw [hposition, hkept.input]
    rfl

/-- `html_document_create` returns a node that was made. -/
def ReturnsNode (create : Dom → Option (ℕ × Dom)) : Prop :=
  ∀ d node d', create d = some (node, d') → Created d' node

/-- **The parser** returns, with the document if it could be made, and then it stands before
what is left of the input, without an error. -/
theorem parse_ends {create : Dom → Option (ℕ × Dom)} (hcreate : ReturnsNode create)
    (st : HtmlState) (html : List UInt8) {node : ℕ} {d : Dom}
    (hnode : create st.dom = some (node, d)) : ∃ st',
      htmlParserParse create st html = some (some node, st') ∧
      st'.parser.input = html.takeWhile (· != 0) ∧ st'.parser.hasErrors = false ∧
      st'.parser.position = (html.takeWhile (· != 0)).length -
        (leftover (html.takeWhile (· != 0))).length := by
  have hmade := hcreate _ _ _ hnode
  unfold htmlParserParse htmlBuildDomTree
  simp only [HtmlState.modify, hnode]
  have hrooted : HtmlState.Rooted d.count
    { parser := { st.parser with
        input := html.takeWhile (· != 0)
        position := 0
        document := node
        currentNode := node
        inHead := false
        inBody := false
        inScript := false
        inStyle := false
        hasErrors := false }
      doc := ⟨0, 0, 0⟩
      dom := d } := ⟨hmade, le_rfl, .inl rfl, fun c hlo hc => absurd hc (not_le.mpr hlo)⟩
  obtain ⟨st', hloop, hinput, herrors, hposition⟩ :=
    buildLoop_ends hrooted (html.takeWhile (· != 0))
  exact ⟨st', by rw [hloop]; rfl, hinput, herrors, hposition⟩

/-- Where input is left, the parser stands before its end. -/
theorem position_lt_iff (s : Str) :
    s.length - (leftover s).length < s.length ↔ complete .content s = false := by
  rw [← Bool.not_eq_true, complete_iff]
  constructor
  · intro hlt hnil
    rw [hnil] at hlt
    simp at hlt
  · intro hne
    have hleft := List.length_pos_iff.mpr hne
    have hpos : 0 < s.length := by
      apply List.length_pos_iff.mpr
      rintro rfl
      apply hne
      decide +kernel
    omega

/-- **Truncation.** When the parser returns a document with input left, an error is reported:
exactly if there is no document, or the automaton reads the whole input. -/
theorem no_truncation {create : Dom → Option (ℕ × Dom)} (hcreate : ReturnsNode create)
    (st : HtmlState) (html : List UInt8) :
    (∀ node st', htmlParserParse create st html = some (some node, st') →
      st'.parser.position < st'.parser.length → st'.parser.hasErrors = true) ↔
    create st.dom = none ∨ complete .content (html.takeWhile (· != 0)) = true := by
  cases hnode : create st.dom with
  | none =>
    refine iff_of_true ?_ (.inl rfl)
    intro node st' hparse
    simp [htmlParserParse, htmlBuildDomTree, HtmlState.modify, hnode] at hparse
  | some made =>
    obtain ⟨node, d⟩ := made
    obtain ⟨st', hparse, hinput, herrors, hposition⟩ := parse_ends hcreate st html hnode
    have hlt := position_lt_iff (html.takeWhile (· != 0))
    simp only [reduceCtorEq, false_or]
    constructor
    · intro h
      by_contra hno
      have herror := h node st' hparse (by
        rw [hposition, HtmlParser.length, hinput]
        exact hlt.mpr (by simpa using hno))
      rw [herrors] at herror
      cases herror
    · intro hcomplete node' st'' hparse' hleft
      rw [hparse] at hparse'
      cases hparse'
      rw [hposition, HtmlParser.length, hinput] at hleft
      rw [hlt.mp hleft] at hcomplete
      cases hcomplete

theorem documentCreate_returns : ReturnsNode documentCreate := by
  intro d node d' h
  cases h
  exact ⟨Nat.succ_ne_zero _, le_rfl⟩

/-- A text with a tag is read to its end. -/
theorem no_truncation_tag : ¬ ∃ node st',
    htmlParserParse documentCreate (newParser noNodes) (str "a<b>c") = some (some node, st') ∧
      st'.parser.position < st'.parser.length ∧ st'.parser.hasErrors = false := by
  rintro ⟨node, st', hparse, hlt, hno⟩
  have herrors : st'.parser.hasErrors = true :=
    (no_truncation documentCreate_returns (newParser noNodes) (str "a<b>c")).mpr
      (.inr (by decide +kernel)) node st' hparse hlt
  rw [hno] at herrors
  cases herrors

/-- `<>` is no tag: the parser stops before the `>`, and reports nothing. -/
theorem stray_silent : ∃ node st',
    htmlParserParse documentCreate (newParser noNodes) (str "<>") = some (some node, st') ∧
      st'.parser.position = 1 ∧ st'.parser.length = 2 ∧ st'.parser.hasErrors = false := by
  have hrun : (htmlParserParse documentCreate (newParser noNodes) (str "<>")).map
      (fun r => (r.1, r.2.parser.position, r.2.parser.length, r.2.parser.hasErrors)) =
        some (some 1, 1, 2, false) := by decide +kernel
  obtain ⟨⟨node, st'⟩, hparse, heq⟩ := Option.map_eq_some_iff.mp hrun
  simp only [Prod.mk.injEq] at heq
  obtain ⟨rfl, hposition, hlength, herrors⟩ := heq
  exact ⟨1, st', hparse, hposition, hlength, herrors⟩

end PrismaticOS.Html
