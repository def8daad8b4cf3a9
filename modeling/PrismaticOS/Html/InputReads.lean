import PrismaticOS.Html.Tokenizer

/-!
# What the HTML parser reads of its input

The functions of `html/src/html/html_parser.c` from `html_parse_tag_name` to
`html_parser_next_token` once more, with `parser->position` and with every index of
`parser->input` that they read.

## The model

A function takes a `Cursor`, which is the position and the list of the indices that were read, and
returns one. `memcpy` reads all indices from the start of a part to the position, and `strncasecmp`
may read nine. The byte at an index behind the input is zero.

## What is proved

* `nextToken_agrees` — the functions find what those do that take the part of the input from the
  position on, leave it at the same place, and read nothing behind the input.
-/

namespace PrismaticOS.Html

open PrismaticOS.Libc

/-- Where a scanner stands in the input, and what it read of it. -/
structure Cursor where
  /-- `parser->position`. -/
  position : ℕ
  /-- The indices that were read. -/
  reads : List ℕ

/-- The character at an index is read. -/
def Cursor.read (c : Cursor) (i : ℕ) : Cursor := { c with reads := i :: c.reads }

/-- The position goes on. -/
def Cursor.advance (c : Cursor) (n : ℕ) : Cursor := { c with position := c.position + n }

/-- `memcpy` from an index to the position. -/
def Cursor.copy (c : Cursor) (start : ℕ) : Cursor :=
  { c with reads := List.range' start (c.position - start) ++ c.reads }

@[simp] theorem Cursor.read_position (c : Cursor) (i : ℕ) :
    (c.read i).position = c.position := rfl

@[simp] theorem Cursor.advance_position (c : Cursor) (n : ℕ) :
    (c.advance n).position = c.position + n := rfl

@[simp] theorem Cursor.copy_position (c : Cursor) (start : ℕ) :
    (c.copy start).position = c.position := rfl

/-- `a - b` for values of type `size_t`. -/
def sizeSub (a b : ℕ) : ℕ := if b ≤ a then a - b else 2 ^ 64 + a - b

/-! ### The functions -/

section
variable (input : Str)

/-- The part of the input between two positions. -/
def part (start stop : ℕ) : Str := (input.drop start).take (stop - start)

/-- A loop over the characters of a kind. -/
def skip (f : UInt8 → Bool) (c : Cursor) : Cursor :=
  if c.position < input.length then
    if f (input.getD c.position 0) then skip f ((c.read c.position).advance 1)
    else c.read c.position
  else c
termination_by input.length - c.position
decreasing_by
  simp only [Cursor.advance_position, Cursor.read_position]
  omega

/-- The character `ch` is passed if it is the next one. -/
def acceptAt (ch : UInt8) (c : Cursor) : Bool × Cursor :=
  if c.position < input.length then
    if input.getD c.position 0 = ch then (true, (c.read c.position).advance 1)
    else (false, c.read c.position)
  else (false, c)

/-- The characters from an index on are those of a word: `&&` reads them one by one. -/
def wordAt : Str → ℕ → Cursor → Bool × Cursor
  | [], _, c => (true, c)
  | ch :: word, i, c =>
    if input.getD i 0 = ch then wordAt word (i + 1) (c.read i) else (false, c.read i)

@[simp] theorem wordAt_position (word : Str) (i : ℕ) (c : Cursor) :
    (wordAt input word i c).2.position = c.position := by
  induction word generalizing i c with
  | nil => rfl
  | cons ch word ih =>
    unfold wordAt
    split_ifs
    · exact ih (i + 1) (c.read i)
    · rfl

/-- `html_parse_tag_name`. -/
def tagNameAt (c : Cursor) : Option Str × Cursor :=
  let stop := skip input isNameChar c
  if c.position = stop.position then (none, stop)
  else (some (part input c.position stop.position), stop.copy c.position)

/-- `html_parse_attribute_value`. -/
def attributeValueAt (c : Cursor) : Option Str × Cursor :=
  let c := skip input isspace c
  if input.length ≤ c.position then (none, c)
  else
    let quote := input.getD c.position 0
    let c := c.read c.position
    if quote = chr '"' ∨ quote = chr '\'' then
      let start := c.advance 1
      let stop := skip input (· != quote) start
      if input.length ≤ stop.position then (none, stop)
      else (some (part input start.position stop.position), (stop.copy start.position).advance 1)
    else
      let stop := skip input isValueChar c
      (some (part input c.position stop.position), stop.copy c.position)

/-- The part of `html_parse_attributes` from the end of the name of an attribute on. -/
def afterNameAt (c : Cursor) : Option Str × Cursor :=
  let equals := acceptAt input (chr '=') (skip input isspace c)
  if equals.1 then attributeValueAt input equals.2 else (none, equals.2)

/-! ### The position goes on -/

theorem le_skip (f : UInt8 → Bool) (c : Cursor) : c.position ≤ (skip input f c).position := by
  fun_induction skip input f c with
  | case1 c hlt hf ih =>
    simp only [Cursor.advance_position, Cursor.read_position] at ih
    omega
  | case2 c hlt hf => exact le_rfl
  | case3 c hlt => exact le_rfl

theorem le_acceptAt (ch : UInt8) (c : Cursor) : c.position ≤ (acceptAt input ch c).2.position := by
  unfold acceptAt
  split_ifs <;> simp

theorem le_attributeValueAt (c : Cursor) :
    c.position ≤ (attributeValueAt input c).2.position := by
  have hspace := le_skip input isspace c
  unfold attributeValueAt
  simp only
  split_ifs
  · exact hspace
  · have hquote := le_skip input (· != input.getD (skip input isspace c).position 0)
      (((skip input isspace c).read (skip input isspace c).position).advance 1)
    simp only [Cursor.advance_position, Cursor.read_position] at hquote ⊢
    omega
  · have hquote := le_skip input (· != input.getD (skip input isspace c).position 0)
      (((skip input isspace c).read (skip input isspace c).position).advance 1)
    simp only [Cursor.advance_position, Cursor.read_position, Cursor.copy_position] at hquote ⊢
    omega
  · have hvalue := le_skip input isValueChar
      ((skip input isspace c).read (skip input isspace c).position)
    exact hspace.trans hvalue

theorem le_afterNameAt (c : Cursor) : c.position ≤ (afterNameAt input c).2.position := by
  have hspace := le_skip input isspace c
  have haccept := le_acceptAt input (chr '=') (skip input isspace c)
  unfold afterNameAt
  simp only
  split_ifs
  · exact (hspace.trans haccept).trans (le_attributeValueAt input _)
  · exact hspace.trans haccept

/-! ### Tags and the other tokens -/

/-- `html_parse_attributes`. -/
def attributesAt (c : Cursor) : List (Str × Option Str) × Cursor :=
  if c.position < input.length then
    let begin := skip input isspace c
    if input.length ≤ begin.position then ([], begin)
    else
      let ch := input.getD begin.position 0
      let start := begin.read begin.position
      if ch = chr '>' ∨ ch = chr '/' then ([], start)
      else
        let stop := skip input isAttrChar start
        if start.position = stop.position then ([], stop)
        else
          let value := afterNameAt input (stop.copy start.position)
          let attrs := attributesAt value.2
          ((part input start.position stop.position, value.1) :: attrs.1, attrs.2)
  else ([], c)
termination_by input.length - c.position
decreasing_by
  have hspace : c.position ≤ start.position := le_skip input isspace c
  have hstop : start.position ≤ stop.position := le_skip input isAttrChar start
  have hvalue : stop.position ≤ value.2.position := le_afterNameAt input (stop.copy start.position)
  have hpast : c.position < value.2.position :=
    (hspace.trans_lt (lt_of_le_of_ne hstop ‹_›)).trans_le hvalue
  exact Nat.sub_lt_sub_left ‹c.position < input.length› hpast

/-- `html_parse_tag`. -/
def tagAt (c : Cursor) : Option HtmlToken × Cursor :=
  let isEnd := acceptAt input (chr '/') (c.advance 1)
  match tagNameAt input isEnd.2 with
  | (none, c) => (none, c)
  | (some tagName, c) =>
    let attrs := attributesAt input c
    let selfClosing := acceptAt input (chr '/') attrs.2
    let close := acceptAt input (chr '>') selfClosing.2
    if close.1 then
      (some (if isEnd.1 then .endTag tagName attrs.1 selfClosing.1
        else .startTag tagName attrs.1 selfClosing.1), close.2)
    else (none, close.2)

/-- `html_parse_text`. -/
def textAt (c : Cursor) : Option HtmlToken × Cursor :=
  let stop := skip input (· != chr '<') c
  if c.position = stop.position then (none, stop)
  else (some (.text (part input c.position stop.position)), stop.copy c.position)

/-- The loop of `html_parse_comment`. -/
def commentEndAt (c : Cursor) : Cursor :=
  if c.position < sizeSub input.length 2 then
    let found := wordAt input [chr '-', chr '-', chr '>'] c.position c
    if found.1 then found.2 else commentEndAt (found.2.advance 1)
  else c
termination_by sizeSub input.length 2 - c.position
decreasing_by
  simp only [Cursor.advance_position, wordAt_position]
  omega

/-- `html_parse_comment`. -/
def commentAt (c : Cursor) : Option HtmlToken × Cursor :=
  let start := c.advance 4
  let stop := commentEndAt input start
  if sizeSub input.length 2 ≤ stop.position then (none, stop)
  else (some (.comment (part input start.position stop.position)),
    (stop.copy start.position).advance 3)

/-- A comment begins here. -/
def commentStartAt (c : Cursor) : Bool × Cursor :=
  if c.position + 3 < input.length then wordAt input (str "!--") (c.position + 1) c else (false, c)

/-- A `DOCTYPE` begins here. -/
def doctypeStartAt (c : Cursor) : Bool × Cursor :=
  if c.position + 8 < input.length then
    (sameCase (part input c.position (c.position + 9)) (str "<!DOCTYPE"),
      { c with reads := List.range' c.position 9 ++ c.reads })
  else (false, c)

/-- The part of `html_parser_next_token` for a `DOCTYPE`. -/
def doctypeAt (c : Cursor) : Option HtmlToken × Cursor :=
  let stop := skip input (· != chr '>') c
  (some .doctype, if stop.position < input.length then stop.advance 1 else stop)

/-- `html_parser_next_token`. -/
def nextTokenAt (c : Cursor) : Option HtmlToken × Cursor :=
  if input.length ≤ c.position then (none, c)
  else
    let c := skip input isspace c
    if input.length ≤ c.position then (none, c)
    else
      let ch := input.getD c.position 0
      let c := c.read c.position
      if ch = chr '<' then
        let comment := commentStartAt input c
        if comment.1 then commentAt input comment.2
        else
          let doctype := doctypeStartAt input comment.2
          if doctype.1 then doctypeAt input doctype.2 else tagAt input doctype.2
      else textAt input c

end

/-! ### What they find, and what they read -/

/-- The cursor stands in the input, where `s` is left, and nothing behind the input was read. -/
structure Stands (input : Str) (c : Cursor) (s : Str) : Prop where
  /-- It stands in the input, or at its end. -/
  inside : c.position ≤ input.length
  /-- What is left. -/
  left : input.drop c.position = s
  /-- What was read. -/
  reads : ∀ i ∈ c.reads, i < input.length

/-- Two functions find the same, and leave the same. -/
def Agrees {α : Type*} (input : Str) (r : α × Cursor) (r' : α × Str) : Prop :=
  r.1 = r'.1 ∧ Stands input r.2 r'.2

section
variable {input s t r : Str} {c c' : Cursor} {ch : UInt8} {f : UInt8 → Bool}

theorem Stands.lt_iff (h : Stands input c s) : c.position < input.length ↔ s ≠ [] := by
  rw [← h.left, Ne, List.drop_eq_nil_iff, not_le]

theorem Stands.length_eq (h : Stands input c s) : s.length = input.length - c.position := by
  rw [← h.left, List.length_drop]

theorem Stands.lt (h : Stands input c (ch :: r)) : c.position < input.length :=
  h.lt_iff.mpr (List.cons_ne_nil ch r)

theorem Stands.getD (h : Stands input c (ch :: r)) : input.getD c.position 0 = ch := by
  have hhead : (input.drop c.position).head? = input[c.position]? := List.head?_drop
  rw [h.left, List.head?_cons] at hhead
  rw [List.getD_eq_getElem?_getD, ← hhead, Option.getD_some]

theorem Stands.read (h : Stands input c s) {i : ℕ} (hi : i < input.length) :
    Stands input (c.read i) s := by
  refine ⟨h.inside, h.left, fun j hj => ?_⟩
  rcases List.mem_cons.mp hj with rfl | hj
  · exact hi
  · exact h.reads j hj

/-- One character is read. -/
theorem Stands.look (h : Stands input c (ch :: r)) :
    Stands input (c.read c.position) (ch :: r) := h.read h.lt

/-- Some characters are passed. -/
theorem Stands.drop (h : Stands input c s) {n : ℕ} (hn : n ≤ s.length) :
    Stands input (c.advance n) (s.drop n) := by
  have hlength := h.length_eq
  have hinside := h.inside
  refine ⟨?_, ?_, h.reads⟩
  · rw [Cursor.advance_position]
    omega
  · rw [Cursor.advance_position, ← List.drop_drop, h.left]

/-- One character is passed. -/
theorem Stands.next (h : Stands input c (ch :: r)) : Stands input (c.advance 1) r :=
  h.drop (Nat.succ_le_succ (Nat.zero_le _))

/-- Any indices before the end are read. -/
theorem Stands.readRange (h : Stands input c s) {start n : ℕ} (hn : start + n ≤ input.length) :
    Stands input { c with reads := List.range' start n ++ c.reads } s := by
  refine ⟨h.inside, h.left, fun j hj => ?_⟩
  rcases List.mem_append.mp hj with hj | hj
  · have hlt := (List.mem_range'_1.mp hj).2
    omega
  · exact h.reads j hj

/-- What was passed is copied. -/
theorem Stands.copied (h : Stands input c s) (h' : Stands input c' t) :
    Stands input (c.copy c'.position) s := by
  apply h.readRange
  have hinside := h.inside
  have hinside' := h'.inside
  omega

/-- What is copied is what was passed. -/
theorem part_eq (h : Stands input c (t ++ r)) (h' : Stands input c' r) :
    part input c.position c'.position = t := by
  have hlength := h.length_eq
  have hlength' := h'.length_eq
  have hinside := h.inside
  have hinside' := h'.inside
  rw [List.length_append] at hlength
  have ht : c'.position - c.position = t.length := by omega
  rw [part, h.left, ht, List.take_left]

/-- **A loop** over the characters of a kind. -/
theorem skip_stands (h : Stands input c s) (f : UInt8 → Bool) :
    Stands input (skip input f c) (s.dropWhile f) := by
  fun_induction skip input f c generalizing s with
  | case1 c hlt hf ih =>
    obtain ⟨ch, r, rfl⟩ := List.exists_cons_of_ne_nil (h.lt_iff.mp hlt)
    rw [h.getD] at hf
    rw [List.dropWhile_cons_of_pos hf]
    exact ih h.look.next
  | case2 c hlt hf =>
    obtain ⟨ch, r, rfl⟩ := List.exists_cons_of_ne_nil (h.lt_iff.mp hlt)
    rw [h.getD] at hf
    rw [List.dropWhile_cons_of_neg hf]
    exact h.look
  | case3 c hlt =>
    have hs : s = [] := by
      by_contra hne
      exact hlt (h.lt_iff.mpr hne)
    rw [hs] at h ⊢
    exact h

/-- What such a loop passes is copied. -/
theorem part_skip (h : Stands input c s) (f : UInt8 → Bool) :
    part input c.position (skip input f c).position = s.takeWhile f := by
  apply part_eq _ (skip_stands h f)
  rw [List.takeWhile_append_dropWhile]
  exact h

/-- Such a loop passes nothing. -/
theorem skip_position_iff (h : Stands input c s) (f : UInt8 → Bool) :
    c.position = (skip input f c).position ↔ s.takeWhile f = [] := by
  have hlength := h.length_eq
  have hlength' := (skip_stands h f).length_eq
  have hinside := h.inside
  have hinside' := (skip_stands h f).inside
  have hsum := congrArg List.length (List.takeWhile_append_dropWhile (p := f) (l := s))
  rw [List.length_append] at hsum
  rw [← List.length_eq_zero_iff]
  omega

theorem acceptAt_agrees (h : Stands input c s) (ch : UInt8) :
    Agrees input (acceptAt input ch c) (accept ch s) := by
  unfold acceptAt accept
  cases s with
  | nil =>
    have hend : ¬ c.position < input.length := fun hlt => h.lt_iff.mp hlt rfl
    rw [if_neg hend]
    exact ⟨rfl, h⟩
  | cons a r =>
    rw [if_pos h.lt, h.getD, List.head?_cons]
    simp only [Option.some.injEq]
    split_ifs
    · exact ⟨rfl, h.look.next⟩
    · exact ⟨rfl, h.look⟩

theorem tagName_agrees (h : Stands input c s) :
    Agrees input (tagNameAt input c) (htmlParseTagName s) := by
  have hstop := skip_stands h isNameChar
  have hpart := part_skip h isNameChar
  unfold tagNameAt htmlParseTagName
  simp only [skip_position_iff h isNameChar]
  split_ifs with hname
  · refine ⟨rfl, ?_⟩
    rw [← List.takeWhile_append_dropWhile (p := isNameChar) (l := s), hname]
    exact hstop
  · exact ⟨congrArg some hpart, hstop.copied h⟩

theorem attributeValue_agrees (h : Stands input c s) :
    Agrees input (attributeValueAt input c) (htmlParseAttributeValue s) := by
  have hspace := skip_stands h isspace
  unfold attributeValueAt htmlParseAttributeValue
  simp only
  generalize skip input isspace c = c at hspace ⊢
  cases hs : s.dropWhile isspace with
  | nil =>
    rw [hs] at hspace
    have hend : input.length ≤ c.position := not_lt.mp fun hlt => hspace.lt_iff.mp hlt rfl
    rw [if_pos hend]
    exact ⟨rfl, hspace⟩
  | cons quote r =>
    rw [hs] at hspace
    have hlook := hspace.look
    simp only [if_neg (not_le.mpr hspace.lt), hspace.getD]
    split_ifs with hquote hend
    · have hstop := skip_stands hlook.next (· != quote)
      cases hr : r.dropWhile (· != quote) with
      | nil =>
        rw [hr] at hstop
        exact ⟨rfl, hstop⟩
      | cons last rest =>
        rw [hr] at hstop
        exact absurd hstop.lt (not_lt.mpr hend)
    · have hstop := skip_stands hlook.next (· != quote)
      have hpart := part_skip hlook.next (· != quote)
      cases hr : r.dropWhile (· != quote) with
      | nil =>
        rw [hr] at hstop
        exact absurd (hstop.lt_iff.mp (not_le.mp hend)) (not_not.mpr rfl)
      | cons last rest =>
        rw [hr] at hstop
        exact ⟨congrArg some hpart, (hstop.copied hlook.next).next⟩
    · exact ⟨congrArg some (part_skip hlook isValueChar),
        (skip_stands hlook isValueChar).copied hlook⟩

theorem afterName_agrees (h : Stands input c s) :
    Agrees input (afterNameAt input c) (htmlParseAfterName s) := by
  have hequals := acceptAt_agrees (skip_stands h isspace) (chr '=')
  unfold afterNameAt htmlParseAfterName
  obtain ⟨hfound, hstands⟩ := hequals
  simp only [hfound]
  generalize accept (chr '=') (s.dropWhile isspace) = equals at hstands ⊢
  obtain ⟨found, rest⟩ := equals
  cases found with
  | true => exact attributeValue_agrees hstands
  | false => exact ⟨rfl, hstands⟩

/-- Whitespace is skipped up to a character. -/
theorem skip_room (h : Stands input c s) (hs : s.dropWhile isspace = ch :: r) :
    c.position < input.length ∧ Stands input (skip input isspace c) (ch :: r) := by
  have hspace := skip_stands h isspace
  rw [hs] at hspace
  exact ⟨(le_skip input isspace c).trans_lt hspace.lt, hspace⟩

theorem attributes_agrees (h : Stands input c s) :
    Agrees input (attributesAt input c) (htmlParseAttributes s) := by
  fun_induction htmlParseAttributes s generalizing c with
  | case1 s hs =>
    have hspace := skip_stands h isspace
    rw [hs] at hspace
    have hend : input.length ≤ (skip input isspace c).position :=
      not_lt.mp fun hlt => hspace.lt_iff.mp hlt rfl
    rw [attributesAt]
    simp only [if_pos hend]
    split_ifs with hlt
    · exact ⟨rfl, hspace⟩
    · have hnil : s = [] := by
        by_contra hne
        exact hlt (h.lt_iff.mpr hne)
      exact ⟨rfl, hnil ▸ h⟩
  | case2 s ch r hs hstop =>
    obtain ⟨hlt, hspace⟩ := skip_room h hs
    rw [attributesAt, if_pos hlt]
    simp only [if_neg (not_le.mpr hspace.lt), hspace.getD, if_pos hstop]
    exact ⟨rfl, hspace.look⟩
  | case3 s ch r hs hstop hname =>
    obtain ⟨hlt, hspace⟩ := skip_room h hs
    rw [attributesAt, if_pos hlt]
    simp only [if_neg (not_le.mpr hspace.lt), hspace.getD, if_neg hstop]
    have hnone := (skip_position_iff hspace.look isAttrChar).mpr hname
    rw [if_pos hnone]
    have hleft := skip_stands hspace.look isAttrChar
    rw [← List.takeWhile_append_dropWhile (p := isAttrChar) (l := ch :: r), hname]
    exact ⟨rfl, hleft⟩
  | case4 s ch r hs hstop hname value hlt' attrs =>
    rename_i ih
    obtain ⟨hlt, hspace⟩ := skip_room h hs
    rw [attributesAt, if_pos hlt]
    simp only [if_neg (not_le.mpr hspace.lt), hspace.getD, if_neg hstop]
    have hsome := (skip_position_iff hspace.look isAttrChar).not.mpr hname
    rw [if_neg hsome]
    have hleft := (skip_stands hspace.look isAttrChar).copied hspace.look
    obtain ⟨hvalue, hstands⟩ := afterName_agrees hleft
    obtain ⟨hattrs, hend⟩ := ih hstands
    refine ⟨?_, hend⟩
    rw [part_skip hspace.look isAttrChar, hvalue, hattrs]

theorem tag_agrees (h : Stands input c (ch :: s)) :
    Agrees input (tagAt input c) (htmlParseTag s) := by
  obtain ⟨hslash, hstands⟩ := acceptAt_agrees h.next (chr '/')
  obtain ⟨hname, hstands⟩ := tagName_agrees hstands
  unfold tagAt htmlParseTag
  simp only [hslash]
  generalize tagNameAt input (acceptAt input (chr '/') (c.advance 1)).2 = found at hname hstands ⊢
  generalize htmlParseTagName (accept (chr '/') s).2 = found' at hname hstands ⊢
  obtain ⟨name, c'⟩ := found
  obtain ⟨name', rest⟩ := found'
  obtain rfl : name = name' := hname
  cases name with
  | none => exact ⟨rfl, hstands⟩
  | some tagName =>
    obtain ⟨hattrs, hstands⟩ := attributes_agrees hstands
    obtain ⟨hself, hstands⟩ := acceptAt_agrees hstands (chr '/')
    obtain ⟨hclose, hstands⟩ := acceptAt_agrees hstands (chr '>')
    simp only [hattrs, hself, hclose]
    split_ifs
    all_goals exact ⟨rfl, hstands⟩

theorem text_agrees (h : Stands input c s) :
    Agrees input (textAt input c) (htmlParseText s) := by
  have hstop := skip_stands h (· != chr '<')
  have hpart := part_skip h (· != chr '<')
  unfold textAt htmlParseText
  simp only [skip_position_iff h (· != chr '<')]
  split_ifs with hnone
  · refine ⟨rfl, ?_⟩
    rw [← List.takeWhile_append_dropWhile (p := (· != chr '<')) (l := s), hnone]
    exact hstop
  · exact ⟨congrArg (fun data => some (HtmlToken.text data)) hpart, hstop.copied h⟩

/-- The characters of a word, where there is room for it. -/
theorem wordAt_agrees (h : Stands input c s) {word : Str} {i : ℕ}
    (hroom : i + word.length ≤ input.length) :
    Agrees input (wordAt input word i c) ((input.drop i).take word.length == word, s) := by
  induction word generalizing i c with
  | nil => exact ⟨rfl, h⟩
  | cons a word ih =>
    rw [List.length_cons] at hroom
    have hi : i < input.length := by omega
    have hget : input.getD i 0 = input[i] := by
      rw [List.getD_eq_getElem?_getD, List.getElem?_eq_getElem hi, Option.getD_some]
    unfold wordAt
    rw [hget, List.drop_eq_getElem_cons hi, List.length_cons, List.take_succ_cons,
      List.cons_beq_cons]
    split_ifs with ha
    · obtain ⟨hfound, hstands⟩ := ih (h.read hi) (i := i + 1) (by omega)
      exact ⟨by simp [hfound, ha], hstands⟩
    · exact ⟨by simp [ha], h.read hi⟩

/-- The loop passes what it found. -/
theorem findCommentEnd_append (s : Str) : (findCommentEnd s).1 ++ (findCommentEnd s).2 = s := by
  fun_induction findCommentEnd s with
  | case1 a b c r h => rfl
  | case2 a b c r h found ih => exact congrArg (a :: ·) ih
  | case3 s h => rfl

/-- The word that ends a comment is read where three characters are left. -/
theorem commentWord_agrees (h : Stands input c s) (hs : 3 ≤ s.length) :
    c.position < input.length - 2 ∧
      Agrees input (wordAt input [chr '-', chr '-', chr '>'] c.position c)
        (s.take 3 == [chr '-', chr '-', chr '>'], s) := by
  have hlength := h.length_eq
  have hroom : c.position + [chr '-', chr '-', chr '>'].length ≤ input.length := by
    simp only [List.length_cons, List.length_nil]
    omega
  obtain ⟨hfound, hstands⟩ := wordAt_agrees h hroom
  rw [h.left] at hfound
  exact ⟨by omega, hfound, hstands⟩

/-- **The loop** over a comment: `length - 2` does not wrap around. -/
theorem commentEnd_stands (hlong : 2 ≤ input.length) (h : Stands input c s) :
    Stands input (commentEndAt input c) (findCommentEnd s).2 := by
  have hsub : sizeSub input.length 2 = input.length - 2 := if_pos hlong
  fun_induction findCommentEnd s generalizing c with
  | case1 a b d r hend =>
    obtain ⟨hroom, hfound, hstands⟩ := commentWord_agrees h (Nat.le_add_left 3 r.length)
    obtain ⟨rfl, rfl, rfl⟩ := hend
    rw [commentEndAt, hsub, if_pos hroom]
    simp only [hfound]
    exact hstands
  | case2 a b d r hmore found =>
    rename_i ih
    obtain ⟨hroom, hfound, hstands⟩ := commentWord_agrees h (Nat.le_add_left 3 r.length)
    have hno : ([a, b, d] == [chr '-', chr '-', chr '>']) = false := by
      simpa using hmore
    rw [commentEndAt, hsub, if_pos hroom]
    have hword : (wordAt input [chr '-', chr '-', chr '>'] c.position c).1 = false :=
      hfound.trans hno
    simp only [hword]
    exact ih hstands.next
  | case3 s hshort =>
    have hlength := h.length_eq
    have hs : s.length ≤ 2 := by
      rcases s with _ | ⟨a, _ | ⟨b, _ | ⟨d, r⟩⟩⟩
      · exact Nat.zero_le 2
      · exact Nat.le_succ 1
      · exact le_rfl
      · exact absurd rfl (hshort a b d r)
    rw [commentEndAt, hsub, if_neg (by omega)]
    exact h

theorem comment_agrees (hlong : 2 ≤ input.length)
    (h : Stands input c (chr '<' :: chr '!' :: chr '-' :: chr '-' :: s)) :
    Agrees input (commentAt input c) (htmlParseComment s) := by
  have hstart : Stands input (c.advance 4) s := h.drop (Nat.le_add_left 4 s.length)
  have hstop := commentEnd_stands hlong hstart
  have hpart : part input (c.advance 4).position (commentEndAt input (c.advance 4)).position =
      (findCommentEnd s).1 := by
    apply part_eq _ hstop
    rwa [findCommentEnd_append]
  have hlength := hstop.length_eq
  have hinside := hstop.inside
  have hsub : sizeSub input.length 2 = input.length - 2 := if_pos hlong
  unfold commentAt htmlParseComment
  simp only [hsub]
  by_cases hnone : (findCommentEnd s).2.length ≤ 2
  · rw [if_pos hnone, if_pos (by omega)]
    exact ⟨rfl, hstop⟩
  · rw [if_neg hnone, if_neg (by omega)]
    refine ⟨congrArg (fun data => some (HtmlToken.comment data)) hpart, ?_⟩
    exact (hstop.copied hstart).drop (by omega)

/-- What begins with a word has room for it. -/
theorem length_of_take {n : ℕ} {word : Str} (h : r.take n = word) (hn : word.length = n) :
    n ≤ r.length := by
  have hlength := congrArg List.length h
  rw [List.length_take, hn] at hlength
  exact min_eq_left_iff.mp hlength

theorem commentStart_agrees (h : Stands input c (chr '<' :: r)) :
    Agrees input (commentStartAt input c) (r.take 3 == str "!--", chr '<' :: r) := by
  have hlength := h.length_eq
  rw [List.length_cons] at hlength
  unfold commentStartAt
  split_ifs with hroom
  · have hleft : input.drop (c.position + 1) = r := h.next.left
    have hword : Agrees input (wordAt input (str "!--") (c.position + 1) c)
        ((input.drop (c.position + 1)).take 3 == str "!--", chr '<' :: r) := wordAt_agrees h hroom
    rwa [hleft] at hword
  · have hno : (r.take 3 == str "!--") = false := by
      rw [beq_eq_false_iff_ne]
      intro heq
      have hlong := length_of_take heq rfl
      omega
    exact ⟨hno.symm, h⟩

theorem doctypeStart_agrees (h : Stands input c (chr '<' :: r)) :
    Agrees input (doctypeStartAt input c)
      (sameCase (r.take 8) (str "!DOCTYPE"), chr '<' :: r) := by
  have hlength := h.length_eq
  rw [List.length_cons] at hlength
  unfold doctypeStartAt
  split_ifs with hroom
  · refine ⟨?_, h.readRange hroom⟩
    have hpart : part input c.position (c.position + 9) = chr '<' :: r.take 8 := by
      rw [part, h.left, Nat.add_sub_cancel_left]
      rfl
    have hword : str "<!DOCTYPE" = chr '<' :: str "!DOCTYPE" := rfl
    simp [hpart, hword, sameCase]
  · have hno : sameCase (r.take 8) (str "!DOCTYPE") = false := by
      by_contra hsame
      have hmap := congrArg List.length (eq_of_beq (eq_true_of_ne_false hsame))
      have hlong : (str "!DOCTYPE").length = 8 := rfl
      rw [List.length_map, List.length_map, List.length_take, hlong] at hmap
      omega
    exact ⟨hno.symm, h⟩

theorem doctype_agrees (h : Stands input c s) :
    Agrees input (doctypeAt input c) (some .doctype, (s.dropWhile (· != chr '>')).tail) := by
  have hstop := skip_stands h (· != chr '>')
  unfold doctypeAt
  refine ⟨rfl, ?_⟩
  cases hs : s.dropWhile (· != chr '>') with
  | nil =>
    rw [hs] at hstop
    simp only [if_neg fun hlt => hstop.lt_iff.mp hlt rfl]
    exact hstop
  | cons close rest =>
    rw [hs] at hstop
    simp only [if_pos hstop.lt]
    exact hstop.next

/-- **The next token** is the same, and only the input is read. -/
theorem nextToken_agrees (h : Stands input c s) :
    Agrees input (nextTokenAt input c) (htmlParserNextToken s) := by
  have hspace := skip_stands h isspace
  unfold nextTokenAt htmlParserNextToken
  simp only
  cases hs : s.dropWhile isspace with
  | nil =>
    rw [hs] at hspace
    have hend : input.length ≤ (skip input isspace c).position :=
      not_lt.mp fun hlt => hspace.lt_iff.mp hlt rfl
    rw [if_pos hend]
    split_ifs with hdone
    · have hnil : s = [] := by
        by_contra hne
        exact not_lt.mpr hdone (h.lt_iff.mpr hne)
      rw [hnil] at h
      exact ⟨rfl, h⟩
    · exact ⟨rfl, hspace⟩
  | cons ch r =>
    rw [hs] at hspace
    have hlt : c.position < input.length := (le_skip input isspace c).trans_lt hspace.lt
    rw [if_neg (not_le.mpr hlt)]
    simp only [if_neg (not_le.mpr hspace.lt), hspace.getD]
    have hlook := hspace.look
    generalize (skip input isspace c).read (skip input isspace c).position = c' at hlook ⊢
    by_cases hopen : ch = chr '<'
    · subst hopen
      obtain ⟨hcomment, hlook⟩ := commentStart_agrees hlook
      obtain ⟨hdoctype, hlook'⟩ := doctypeStart_agrees hlook
      simp only [↓reduceIte, hcomment, hdoctype, beq_iff_eq]
      split_ifs with hword hsame
      · have hdash : r = chr '!' :: chr '-' :: chr '-' :: r.drop 3 := by
          have happend := List.take_append_drop 3 r
          rw [hword] at happend
          exact happend.symm
        have hlong : 2 ≤ input.length := by
          have hlength := hlook.length_eq
          have hroom := length_of_take hword rfl
          rw [List.length_cons] at hlength
          omega
        rw [hdash] at hlook
        exact comment_agrees hlong hlook
      · exact doctype_agrees hlook'
      · exact tag_agrees hlook'
    · simp only [if_neg hopen]
      exact text_agrees hlook

end

end PrismaticOS.Html
