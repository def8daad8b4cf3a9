import PrismaticOS.Html.Tokenizer
import PrismaticOS.Html.SiblingLists

/-!
# The HTML parser

The functions of `html/src/html/html_parser.c` that build a document from the tokens.

## The model

`html_document_create` is declared in `html.h` only: it is a parameter that takes the memory and
returns the new document, and the memory then, or `none` for `NULL`. A document is its node,
and the elements that an `html_document_t` names are kept beside it. The position information
in `line` and `column`, which the parser sets to one and leaves, is left out.

The loop of `html_handle_end_tag` follows the parents of a node. After as many steps as there
are nodes it can only go round, so the call returns nothing then.
-/

namespace PrismaticOS.Html

open PrismaticOS.Libc

/-- An `html_parser_t`. -/
structure HtmlParser where
  /-- The string that is parsed. -/
  input : Str
  /-- How much of it was read. -/
  position : ℕ
  /-- The document. -/
  document : ℕ
  /-- The open element, or the document. -/
  currentNode : ℕ
  /-- In an element `head`. -/
  inHead : Bool
  /-- In an element `body`. -/
  inBody : Bool
  /-- In an element `script`. -/
  inScript : Bool
  /-- In an element `style`. -/
  inStyle : Bool
  /-- An error was found. -/
  hasErrors : Bool
  deriving DecidableEq

/-- `parser->length`. -/
def HtmlParser.length (parser : HtmlParser) : ℕ := parser.input.length

/-- `html_parser_create`. -/
def htmlParserCreate : HtmlParser := ⟨[], 0, 0, 0, false, false, false, false, false⟩

/-- The elements that an `html_document_t` names. -/
structure HtmlDocument where
  /-- The element `html`. -/
  htmlElement : ℕ
  /-- The element `head`. -/
  headElement : ℕ
  /-- The element `body`. -/
  bodyElement : ℕ

/-- The parser, its document and the memory. -/
structure HtmlState where
  /-- The parser. -/
  parser : HtmlParser
  /-- The elements that the document names. -/
  doc : HtmlDocument
  /-- The nodes. -/
  dom : Dom

/-- A new parser, with the nodes `d` in memory. -/
def newParser (d : Dom) : HtmlState := ⟨htmlParserCreate, ⟨0, 0, 0⟩, d⟩

/-- The parser changes. -/
def HtmlState.modify (st : HtmlState) (f : HtmlParser → HtmlParser) : HtmlState :=
  { st with parser := f st.parser }

/-- `html_is_void_element`. -/
def htmlIsVoidElement (tagName : Str) : Bool :=
  ["area", "base", "br", "col", "embed", "hr", "img", "input", "keygen", "link", "meta", "param",
    "source", "track", "wbr"].any fun name => sameCase tagName (str name)

/-- `strtok(s, " ")`, again and again: the parts of a string between spaces. -/
def strtokSpaces (s : Str) : List Str := (s.splitOn (chr ' ')).filter (· ≠ [])

/-- An element with an attribute `id` gets that id. -/
def setId (dom : Dom) (element : ℕ) : Dom :=
  match domNodeGetAttribute dom element (str "id") with
  | some id => dom.modify element fun node => { node with id := some id }
  | none => dom

/-- An element with an attribute `class` gets the classes that stand there between spaces. -/
def setClasses (dom : Dom) (element : ℕ) : Dom :=
  match domNodeGetAttribute dom element (str "class") with
  | some value => (strtokSpaces value).foldl (fun dom c => domNodeAddClass dom element c) dom
  | none => dom

/-- The element that `html_handle_start_tag` makes. -/
def startElement (dom : Dom) (tagName : Str) (attrs : List (Str × Option Str)) : Dom × ℕ :=
  let (dom, element) := domElementCreate dom (some tagName)
  let dom := attrs.foldl (fun dom a => domNodeSetAttribute dom element a.1 a.2) dom
  (setClasses (setId dom element) element, element)

/-- What `html_handle_start_tag` does for some elements. -/
def startSpecial (st : HtmlState) (tagName : Str) (element : ℕ) : HtmlState :=
  if sameCase tagName (str "html") then
    { st with
      doc := { st.doc with htmlElement := element }
      parser := { st.parser with inBody := false } }
  else if sameCase tagName (str "head") then
    { st with
      doc := { st.doc with headElement := element }
      parser := { st.parser with inHead := true } }
  else if sameCase tagName (str "body") then
    { st with
      doc := { st.doc with bodyElement := element }
      parser := { st.parser with inBody := true } }
  else if sameCase tagName (str "script") then st.modify fun p => { p with inScript := true }
  else if sameCase tagName (str "style") then st.modify fun p => { p with inStyle := true }
  else st

/-- `html_handle_start_tag`. -/
def htmlHandleStartTag (st : HtmlState) (tagName : Str) (attrs : List (Str × Option Str))
    (selfClosing : Bool) : HtmlState :=
  let (dom, element) := startElement st.dom tagName attrs
  let dom := domNodeAppendChild dom st.parser.currentNode element
  let st := startSpecial { st with dom := dom } tagName element
  if !selfClosing && !htmlIsVoidElement tagName then
    st.modify fun p => { p with currentNode := element }
  else st

/-- The loop of `html_handle_end_tag`: the innermost open element with the name, if there is
one. -/
def findOpen (dom : Dom) (document : ℕ) (tagName : Str) : ℕ → ℕ → Option (Option ℕ)
  | 0, _ => none
  | fuel + 1, current =>
    if current = 0 ∨ current = document then some none
    else if (dom.nodes current).type = .element ∧
        ((dom.nodes current).tagName.any fun name => sameCase name tagName) then
      some (some current)
    else findOpen dom document tagName fuel (dom.parent current)

/-- What `html_handle_end_tag` does for some elements. -/
def endSpecial (st : HtmlState) (tagName : Str) : HtmlState :=
  if sameCase tagName (str "head") then st.modify fun p => { p with inHead := false }
  else if sameCase tagName (str "body") then st.modify fun p => { p with inBody := false }
  else if sameCase tagName (str "script") then st.modify fun p => { p with inScript := false }
  else if sameCase tagName (str "style") then st.modify fun p => { p with inStyle := false }
  else st

/-- `html_handle_end_tag`. -/
def htmlHandleEndTag (st : HtmlState) (tagName : Str) : Option HtmlState :=
  (findOpen st.dom st.parser.document tagName (st.dom.count + 1) st.parser.currentNode).map
    fun found =>
      let st := match found with
        | some current =>
          if st.dom.parent current ≠ 0 then
            st.modify fun p => { p with currentNode := st.dom.parent current }
          else st
        | none => st
      endSpecial st tagName

/-- `html_handle_text`. -/
def htmlHandleText (st : HtmlState) (data : Str) : HtmlState :=
  if data = [] then st
  else
    let (dom, text) := domTextCreate st.dom (some data)
    { st with dom := domNodeAppendChild dom st.parser.currentNode text }

/-- The `switch` of `html_build_dom_tree`. -/
def htmlHandleToken (st : HtmlState) : HtmlToken → Option HtmlState
  | .startTag tagName attrs selfClosing => some (htmlHandleStartTag st tagName attrs selfClosing)
  | .endTag tagName _ _ => htmlHandleEndTag st tagName
  | .text data => some (htmlHandleText st data)
  | .comment _ => some st
  | .doctype => some st

/-- The position when `rest` is what is left of the input. -/
def HtmlState.at (st : HtmlState) (rest : Str) : HtmlState :=
  st.modify fun p => { p with position := p.input.length - rest.length }

/-- The loop of `html_build_dom_tree`, where `s` is what is left of the input. -/
def buildLoop (st : HtmlState) (s : Str) : Option HtmlState :=
  match h : htmlParserNextToken s with
  | (none, rest) => some (st.at rest)
  | (some token, rest) =>
    have : rest.length < s.length := by
      have hlt := @nextToken_length s token (by rw [h])
      rwa [h] at hlt
    match htmlHandleToken (st.at rest) token with
    | none => none
    | some st => buildLoop st rest
termination_by s.length

/-- The loop at the last token. -/
theorem buildLoop_none {st : HtmlState} {s rest : Str}
    (h : htmlParserNextToken s = (none, rest)) : buildLoop st s = some (st.at rest) := by
  rw [buildLoop]
  split
  · rename_i heq
    rw [h] at heq
    cases heq
    rfl
  · rename_i heq
    rw [h] at heq
    cases heq

/-- The loop at another token. -/
theorem buildLoop_some {st : HtmlState} {s rest : Str} {token : HtmlToken}
    (h : htmlParserNextToken s = (some token, rest)) :
    buildLoop st s = (htmlHandleToken (st.at rest) token).bind fun st => buildLoop st rest := by
  rw [buildLoop]
  split
  · rename_i heq
    rw [h] at heq
    cases heq
  · rename_i heq
    rw [h] at heq
    cases heq
    simp only
    split
    · rename_i hnone
      rw [hnone]
      rfl
    · rename_i hsome
      rw [hsome]
      rfl

/-- `html_build_dom_tree`, with what it returns. -/
def htmlBuildDomTree (create : Dom → Option (ℕ × Dom)) (st : HtmlState) :
    Option (Option ℕ × HtmlState) :=
  match create st.dom with
  | none => some (none, st)
  | some (node, dom) =>
    let st : HtmlState :=
      { parser := { st.parser with document := node, currentNode := node }
        doc := ⟨0, 0, 0⟩
        dom := dom }
    (buildLoop st st.parser.input).map fun st => (some node, st)

/-- `html_parser_parse`, with the document it returns; `html` is the memory that the string is
in. -/
def htmlParserParse (create : Dom → Option (ℕ × Dom)) (st : HtmlState) (html : List UInt8) :
    Option (Option ℕ × HtmlState) :=
  htmlBuildDomTree create (st.modify fun p =>
    { p with
      input := html.takeWhile (· != 0)
      position := 0
      inHead := false
      inBody := false
      inScript := false
      inStyle := false
      hasErrors := false })

/-- A document with a new node. -/
def documentCreate (d : Dom) : Option (ℕ × Dom) :=
  some ((domDocumentCreate d).2, (domDocumentCreate d).1)

/-! ### New nodes -/

/-- The node of a new element. -/
structure NewElement (tagName : Str) (attrs : List (Str × Option Str)) (node : DomNode) :
    Prop where
  /-- It is an element. -/
  type : node.type = .element
  /-- Its name. -/
  tagName : node.tagName = some tagName
  /-- Its attributes. -/
  attrs : node.attrs = attrs
  /-- It is linked with nothing. -/
  loose : Loose node

/-- The attributes of a start tag, set one after the other. -/
def setAttrs (attrs : List (Str × Option Str)) : List (Str × Option Str) :=
  attrs.foldl (fun set a => setAttr a.1 a.2 set) []

/-- A new node changes. -/
theorem Dom.add_modify (d : Dom) (node : DomNode) (f : DomNode → DomNode) :
    (d.add node).modify d.fresh f = d.add (f node) := by
  unfold Dom.modify Dom.add
  simp

section
variable {d : Dom} {tagName : Str} {attrs : List (Str × Option Str)} {node : DomNode}

theorem setAttribute_new (as : List (Str × Option Str)) (node : DomNode) :
    as.foldl (fun dom a => domNodeSetAttribute dom d.fresh a.1 a.2) (d.add node) =
      d.add { node with attrs := as.foldl (fun set a => setAttr a.1 a.2 set) node.attrs } := by
  induction as generalizing node with
  | nil => rfl
  | cons a as ih =>
    rw [List.foldl_cons, domNodeSetAttribute, Dom.add_modify, ih]
    rfl

theorem setId_new (h : NewElement tagName attrs node) :
    ∃ node', setId (d.add node) d.fresh = d.add node' ∧ NewElement tagName attrs node' := by
  unfold setId
  split
  · exact ⟨_, Dom.add_modify .., ⟨h.type, h.tagName, h.attrs, h.loose.1, h.loose.2, h.loose.3,
      h.loose.4, h.loose.5⟩⟩
  · exact ⟨node, rfl, h⟩

theorem addClass_new (h : NewElement tagName attrs node) (cs : List Str) :
    ∃ node', cs.foldl (fun dom c => domNodeAddClass dom d.fresh c) (d.add node) = d.add node' ∧
      NewElement tagName attrs node' := by
  induction cs generalizing node with
  | nil => exact ⟨node, rfl, h⟩
  | cons c cs ih =>
    rw [List.foldl_cons, domNodeAddClass]
    split_ifs
    · exact ih h
    · rw [Dom.add_modify]
      apply ih
      exact ⟨h.type, h.tagName, h.attrs, h.loose.1, h.loose.2, h.loose.3, h.loose.4, h.loose.5⟩

theorem setClasses_new (h : NewElement tagName attrs node) :
    ∃ node', setClasses (d.add node) d.fresh = d.add node' ∧ NewElement tagName attrs node' := by
  unfold setClasses
  split
  · exact addClass_new h _
  · exact ⟨node, rfl, h⟩

/-- **The element of a start tag** is a new node. -/
theorem startElement_new (d : Dom) (tagName : Str) (attrs : List (Str × Option Str)) :
    ∃ node, startElement d tagName attrs = (d.add node, d.fresh) ∧
      NewElement tagName (setAttrs attrs) node := by
  have hnode : NewElement tagName (setAttrs attrs)
      { blankNode .element with tagName := some tagName, attrs := setAttrs attrs } :=
    ⟨rfl, rfl, rfl, rfl, rfl, rfl, rfl, rfl⟩
  obtain ⟨named, hid, hnamed⟩ := setId_new (d := d) hnode
  obtain ⟨node, hclass, hnew⟩ := setClasses_new (d := d) hnamed
  refine ⟨node, ?_, hnew⟩
  unfold startElement domElementCreate
  simp only
  rw [setAttribute_new]
  rw [← hclass, ← hid]
  rfl

end

/-! ### What the parser keeps -/

/-- What the parser keeps while it handles a token. -/
structure Kept (st st' : HtmlState) : Prop where
  /-- The input. -/
  input : st'.parser.input = st.parser.input
  /-- Whether there was an error. -/
  hasErrors : st'.parser.hasErrors = st.parser.hasErrors
  /-- The document. -/
  document : st'.parser.document = st.parser.document

/-- What the parser keeps while it sets its flags and the named elements of the document. -/
structure Flagged (st st' : HtmlState) : Prop where
  /-- What it always keeps. -/
  kept : Kept st st'
  /-- The open element. -/
  currentNode : st'.parser.currentNode = st.parser.currentNode
  /-- The nodes. -/
  dom : st'.dom = st.dom

theorem startSpecial_flagged (st : HtmlState) (tagName : Str) (element : ℕ) :
    Flagged st (startSpecial st tagName element) := by
  unfold startSpecial
  split_ifs <;> exact ⟨⟨rfl, rfl, rfl⟩, rfl, rfl⟩

theorem endSpecial_flagged (st : HtmlState) (tagName : Str) :
    Flagged st (endSpecial st tagName) := by
  unfold endSpecial
  split_ifs <;> exact ⟨⟨rfl, rfl, rfl⟩, rfl, rfl⟩

end PrismaticOS.Html
